import Rblpolicyd.Options.Scan

/-!
# The command line as `getopt` reads it

The arguments are read from left to right: an element without option syntax is set
apart, `--` ends the options, a long option is looked up, and a short element is a
cluster of characters, of which the last may take an argument. Calling
`_getopt_internal` until it returns -1 gives just these events, in this order, and
leaves the array with all option elements in front of all others, each in the order of
the command line.

## Main definitions

* `lookupLong` — the option that a long name stands for
* `longEvent`, `cluster`, `elementEvents` — what one option element stands for
* `scan` — the reading of a command line
* `GetoptRun` — the calls of `_getopt_internal` until it returns -1

## Main results

* `matchLong_eq` — an exact match wins, else a name has to have a single completion
* `getopt_run` — the calls return what the recursion reads, and order the array
* `getopt_permutes` — every argument is kept, in one of the two parts of the array
-/

namespace Rblpolicyd

open Libc

/-- The option a long name stands for: the one of that name, else the only one whose name
it begins. -/
def lookupLong (name : Bytes) (longopts : List LongOption) : Option LongOption :=
  match longopts.find? (·.name = name) with
  | some p => some p
  | none =>
    match longopts.filter (name.isPrefixOf ·.name) with
    | [p] => some p
    | _ => none

/-- What the search loop settles for. -/
def LongMatch.result (m : LongMatch) : Option LongOption :=
  if m.ambig && !m.exact then none else m.pfound.map (·.2)

/-- The loop goes on with the candidate it has, if any, and the options it has not seen. -/
theorem matchLong_result (name : Bytes) (longopts : List LongOption) (i : Nat) (m : LongMatch)
    (hexact : m.exact = false) :
    (matchLong name i longopts m).result =
      match longopts.find? (·.name = name) with
      | some p => some p
      | none =>
        if m.ambig then none
        else
          match (m.pfound.map (·.2)).toList ++ longopts.filter (name.isPrefixOf ·.name) with
          | [p] => some p
          | _ => none := by
  induction longopts generalizing i m with
  | nil =>
    simp only [matchLong, LongMatch.result, hexact, List.find?_nil, List.filter_nil,
      List.append_nil]
    cases m.ambig <;> cases m.pfound <;> rfl
  | cons p longopts ih =>
    rw [matchLong]
    by_cases hbegins : name.isPrefixOf p.name = true
    · have hfilter : (p :: longopts).filter (name.isPrefixOf ·.name) =
          p :: longopts.filter (name.isPrefixOf ·.name) := List.filter_cons_of_pos hbegins
      rw [if_pos hbegins, hfilter]
      by_cases hlen : name.length = p.name.length
      · -- an exact match ends the loop
        have hname : p.name = name :=
          ((List.isPrefixOf_iff_prefix.mp hbegins).eq_of_length hlen).symm
        rw [if_pos hlen, List.find?_cons_of_pos (by simpa using hname)]
        simp [LongMatch.result]
      · have hname : p.name ≠ name := fun h => hlen (by rw [h])
        rw [if_neg hlen, List.find?_cons_of_neg (by simpa using hname)]
        cases hfound : m.pfound with
        | none =>
          rw [Option.isNone_none, if_pos rfl, ih _ _ (by simpa using hexact)]
          rfl
        | some q =>
          rw [Option.isNone_some, if_neg (by simp), ih _ _ (by simpa using hexact)]
          simp only [if_true, Option.map_some, Option.toList_some, List.cons_append]
          cases m.ambig <;> rfl
    · have hname : p.name ≠ name := by
        rintro rfl
        exact hbegins (by simp)
      have hfilter : (p :: longopts).filter (name.isPrefixOf ·.name) =
          longopts.filter (name.isPrefixOf ·.name) := List.filter_cons_of_neg hbegins
      rw [if_neg hbegins, hfilter, List.find?_cons_of_neg (by simpa using hname)]
      exact ih _ _ hexact

theorem matchLong_eq (name : Bytes) (longopts : List LongOption) :
    (matchLong name 0 longopts {}).result = lookupLong name longopts := by
  rw [matchLong_result name longopts 0 {} rfl]
  rfl

/-! ### Reading a command line -/

/-- What a call returns, with `optarg`. -/
abbrev OptionEvent := Int × Option Bytes

/-- What a long option returns once it is found. -/
def LongOption.code (p : LongOption) : Int := if p.flag.isSome then 0 else p.val

/-- A long option by its text, and whether the element behind it is its argument. -/
def longEvent (call : GetoptCall) (longopts : List LongOption) (text : Bytes)
    (behind : List Bytes) : OptionEvent × Bool :=
  match lookupLong (text.takeWhile (· ≠ 61)) longopts, text.dropWhile (· ≠ 61), behind with
  | none, _, _ => ((63, none), false)
  | some p, _ :: value, _ => (if p.hasArg ≠ 0 then (p.code, some value) else (63, none), false)
  | some p, [], arg :: _ =>
    if p.hasArg = 1 then ((p.code, some arg), true) else ((p.code, none), false)
  | some p, [], [] =>
    (if p.hasArg = 1 then (call.missingArgument, none) else (p.code, none), false)

/-- A cluster of short options: an option that takes an argument takes what is left of the
cluster, or else the element behind it. -/
def cluster (call : GetoptCall) : Bytes → List Bytes → List OptionEvent × Bool
  | [], _ => ([], false)
  | c :: cs, behind =>
    match argKind call.optstring c, cs, behind with
    | .optional, cs, _ => ([(charInt c, if cs = [] then none else some cs)], false)
    | .required, [], [] => ([(call.missingArgument, none)], false)
    | .required, [], arg :: _ => ([(charInt c, some arg)], true)
    | .required, cs, _ => ([(charInt c, some cs)], false)
    | .plain, cs, behind =>
      let (events, takes) := cluster call cs behind
      ((charInt c, none) :: events, takes)
    | _, cs, behind =>
      let (events, takes) := cluster call cs behind
      ((63, none) :: events, takes)

/-- What an option element stands for. -/
def elementEvents (call : GetoptCall) (element : Bytes) (behind : List Bytes) :
    List OptionEvent × Bool :=
  match call.longopts with
  | some longopts =>
    if element[1]? = some 45 then
      let (event, takes) := longEvent call longopts (element.drop 2) behind
      ([event], takes)
    else cluster call (element.drop 1) behind
  | none => cluster call (element.drop 1) behind

/-- A command line taken apart. -/
structure Scanned where
  events : List OptionEvent
  options : List Bytes
  nonoptions : List Bytes
  deriving DecidableEq

/-- Events and option elements in front of what is read behind them. -/
def Scanned.after (r : Scanned) (events : List OptionEvent) (options : List Bytes) : Scanned :=
  ⟨events ++ r.events, options ++ r.options, r.nonoptions⟩

/-- The reading of the elements behind the program's name. -/
def scan (call : GetoptCall) (ordering : ArgOrdering) : List Bytes → Scanned
  | [] => ⟨[], [], []⟩
  | element :: behind =>
    if element = ascii "--" then ⟨[], [element], behind⟩
    else if nonoption element then
      match ordering with
      | .requireOrder => ⟨[], [], element :: behind⟩
      | .permute =>
        let r := scan call .permute behind
        { r with nonoptions := element :: r.nonoptions }
      | .returnInOrder =>
        (scan call .returnInOrder behind).after [(1, some element)] [element]
    else
      match elementEvents call element behind, behind with
      | (events, true), arg :: behind =>
        (scan call ordering behind).after events [element, arg]
      | (events, _), behind => (scan call ordering behind).after events [element]

/-! ### Decoding returns what is read -/

variable {args : GetoptArgs} {call : GetoptCall} {prog element cs : Bytes} {c : UInt8}
  {behind rest : List Bytes} {longopts : List LongOption} {s : GetoptState} {a : Scanner}
  {ordering : ArgOrdering}

/-- Decoding an element returns an event, and passes its argument if it takes one. -/
structure Decoded.Returns (d : Decoded) (p : OptionEvent × Bool) : Prop where
  event : (d.code, d.optarg) = p.1
  passed : d.passed = if p.2 then 2 else 1
  nextchar : d.nextchar = some []

theorem rejectLong_returns (code optopt : Int) (text : Bytes) :
    (rejectLong call code optopt text).Returns ((code, none), false) := ⟨rfl, rfl, rfl⟩

/-- The option that was found returns what is read for it. -/
theorem foundLong_returns {p : LongOption} {text : Bytes} (i : Nat)
    (hlookup : lookupLong (text.takeWhile (· ≠ 61)) longopts = some p) :
    (foundLong call i p element (text.dropWhile (· ≠ 61)) behind).Returns
      (longEvent call longopts text behind) := by
  unfold foundLong longEvent
  rw [hlookup]
  cases text.dropWhile (· ≠ 61) with
  | cons mark value =>
    by_cases harg : p.hasArg ≠ 0
    · simp only [if_pos harg]
      exact ⟨rfl, rfl, rfl⟩
    · simp only [if_neg harg]
      exact ⟨rfl, rfl, rfl⟩
  | nil =>
    by_cases harg : p.hasArg = 1 <;> cases behind <;> simp only [harg, if_true, if_false] <;>
      exact ⟨rfl, rfl, rfl⟩

/-- A long option returns what is read for it; only `getopt_long_only` may go on. -/
theorem decodeLong_returns (honly : call.longOnly = false) (text : Bytes) :
    ∃ d, decodeLong call longopts element text behind = some d ∧
      d.Returns (longEvent call longopts text behind) := by
  have hlookup := matchLong_eq (text.takeWhile (· ≠ 61)) longopts
  unfold LongMatch.result at hlookup
  unfold decodeLong
  simp only
  generalize matchLong (text.takeWhile (· ≠ 61)) 0 longopts {} = m at hlookup ⊢
  have hnone : lookupLong (text.takeWhile (· ≠ 61)) longopts = none →
      longEvent call longopts text behind = ((63, none), false) := by
    intro h
    simp only [longEvent, h]
  by_cases hambig : (m.ambig && !m.exact) = true
  · -- two options begin with the name
    rw [if_pos hambig] at hlookup ⊢
    rw [hnone hlookup.symm]
    exact ⟨_, rfl, rejectLong_returns _ _ _⟩
  · rw [if_neg hambig] at hlookup ⊢
    cases hfound : m.pfound with
    | some found =>
      rw [hfound] at hlookup
      exact ⟨_, rfl, foundLong_returns found.1 hlookup.symm⟩
    | none =>
      rw [hfound] at hlookup
      rw [hnone hlookup.symm]
      simp only [honly, Bool.not_false, Bool.true_or, if_true]
      exact ⟨_, rfl, rejectLong_returns _ _ _⟩

/-! ### The calls of a whole command line -/

/-- Calls until -1 is returned, and the variables after them. -/
inductive GetoptRun (args : GetoptArgs) : GetoptState → List OptionEvent → GetoptState → Prop
  | done {s s' : GetoptState} : getoptInternal args s = (-1, s') → GetoptRun args s [] s'
  | call {s s' s'' : GetoptState} {code : Int} {events : List OptionEvent} :
    getoptInternal args s = (code, s') → code ≠ -1 → GetoptRun args s' events s'' →
      GetoptRun args s ((code, s'.optarg) :: events) s''

/-- What the caller has to see to: no mark for the ordering, no `W;`, and no option that
itself returns -1. -/
structure GetoptArgs.Plain (args : GetoptArgs) : Prop where
  longOnly : args.longOnly = false
  noMark : args.optstring[0]? ≠ some 45 ∧ args.optstring[0]? ≠ some 43
  noW : argKind args.optstring 87 ≠ .long
  noChar : (255 : UInt8) ∉ args.optstring
  noVal : ∀ p ∈ args.longopts.getD [], p.code ≠ -1

/-- The calls from here on return the events of `r`, and order the array by its lists. -/
def Completes (args : GetoptArgs) (prog : Bytes) (s : GetoptState)
    (options skipped : List Bytes) (r : Scanned) : Prop :=
  ∃ s', GetoptRun args s r.events s' ∧
    s'.argv = prog :: (options ++ r.options ++ (skipped ++ r.nonoptions)) ∧
    s'.optind = 1 + (options ++ r.options).length

theorem Completes.of_finished {b : Scanner} {r : Scanned} (hcode : (getoptInternal args s).1 = -1)
    (hfinished : Finished prog (getoptInternal args s).2 b) {options skipped : List Bytes}
    (hevents : r.events = []) (hoptions : b.options = options ++ r.options)
    (hrest : b.skipped ++ b.rest = skipped ++ r.nonoptions) :
    Completes args prog s options skipped r := by
  refine ⟨(getoptInternal args s).2, ?_, ?_, ?_⟩
  · rw [hevents]
    exact .done (Prod.ext hcode rfl)
  · rw [hfinished.argv, hoptions, hrest]
  · rw [hfinished.optind, hoptions]

theorem Completes.of_call {d : Decoded} {r : Scanned} {options skipped passed : List Bytes}
    (hcode : (getoptInternal args s).1 = d.code) (hne : d.code ≠ -1)
    (hoptarg : (getoptInternal args s).2.optarg = d.optarg)
    (h : Completes args prog (getoptInternal args s).2 (options ++ passed) skipped r) :
    Completes args prog s options skipped (r.after [(d.code, d.optarg)] passed) := by
  obtain ⟨s', hrun, hargv, hoptind⟩ := h
  refine ⟨s', ?_, ?_, ?_⟩
  · rw [← hoptarg]
    exact .call (Prod.ext hcode rfl) hne hrun
  · simpa [Scanned.after] using hargv
  · simpa [Scanned.after, List.append_assoc] using hoptind

theorem scan_end (behind : List Bytes) :
    scan call ordering (ascii "--" :: behind) = ⟨[], [ascii "--"], behind⟩ := by
  rw [scan.eq_def]
  exact if_pos rfl

theorem ne_dash_of_nonoption (hnon : nonoption element = true) : element ≠ ascii "--" := by
  rintro rfl
  exact absurd hnon (by decide)

theorem scan_nonoption (hnon : nonoption element = true) (behind : List Bytes) :
    scan call .permute (element :: behind) =
      { scan call .permute behind with
        nonoptions := element :: (scan call .permute behind).nonoptions } := by
  rw [scan.eq_def]
  simp only [if_neg (ne_dash_of_nonoption hnon), if_pos hnon]

/-- What is read behind an element, and its argument if it takes one. -/
def behindElement (call : GetoptCall) (ordering : ArgOrdering) (element : Bytes)
    (behind : List Bytes) (p : List OptionEvent × Bool) : Scanned :=
  match p, behind with
  | (events, true), arg :: behind => (scan call ordering behind).after events [element, arg]
  | (events, _), behind => (scan call ordering behind).after events [element]

theorem scan_element (hdash : element ≠ ascii "--") (hnon : nonoption element = false)
    (behind : List Bytes) :
    scan call ordering (element :: behind) =
      behindElement call ordering element behind (elementEvents call element behind) := by
  rw [scan.eq_def]
  simp only [if_neg hdash, hnon, Bool.false_eq_true, if_false]
  rfl

/-- The elements that are no options are set apart. -/
theorem scan_skip (rest : List Bytes) :
    scan call .permute rest =
      { scan call .permute (rest.dropWhile nonoption) with
        nonoptions := rest.takeWhile nonoption ++
          (scan call .permute (rest.dropWhile nonoption)).nonoptions } := by
  induction rest with
  | nil => rfl
  | cons element rest ih =>
    by_cases hnon : nonoption element = true
    · rw [List.takeWhile_cons_of_pos hnon, List.dropWhile_cons_of_pos hnon, scan_nonoption hnon,
        ih]
      rfl
    · rw [List.takeWhile_cons_of_neg hnon, List.dropWhile_cons_of_neg hnon, List.nil_append]

/-! ### The run -/

theorem charInt_ne {optstring : Bytes} (hkind : argKind optstring c ≠ .unknown)
    (hchar : (255 : UInt8) ∉ optstring) : charInt c ≠ -1 := by
  have hmem : c ∈ optstring := by
    by_contra hc
    apply hkind
    rw [argKind, strchr_eq_none_iff.mpr hc]
    split_ifs <;> rfl
  intro h
  have hlt : c.toNat < 256 := c.toNat_lt
  have hval : c.toNat = 255 := by
    unfold charInt at h
    split_ifs at h
    omega
  obtain rfl : c = UInt8.ofNat 255 := UInt8.toNat_inj.mp (by rw [hval]; rfl)
  exact hchar hmem

theorem missingArgument_ne : call.missingArgument ≠ -1 := by
  unfold GetoptCall.missingArgument
  split_ifs <;> decide

section Kinds

theorem decodeShort_unknown (hkind : argKind call.optstring c = .unknown) :
    decodeShort call element c cs behind =
      { code := 63
        optopt := some (charInt c)
        passed := if cs = [] then 1 else 0
        nextchar := some cs
        stderr := call.complain
          ((if call.posixlyCorrect then ascii "illegal" else ascii "invalid") ++
            ascii " option -- " ++ [c]) } := by
  simp only [decodeShort, hkind]

theorem decodeShort_plain (hkind : argKind call.optstring c = .plain) :
    decodeShort call element c cs behind =
      { code := charInt c, passed := if cs = [] then 1 else 0, nextchar := some cs } := by
  simp only [decodeShort, hkind]

theorem decodeShort_optional (hkind : argKind call.optstring c = .optional) :
    decodeShort call element c cs behind =
      { code := charInt c, optarg := if cs = [] then none else some cs, passed := 1
        nextchar := none } := by
  simp only [decodeShort, hkind]

variable (hkind : argKind call.optstring c = .required)
include hkind

theorem decodeShort_required_nil :
    decodeShort call element c [] [] = decodeMissing call c none := by
  simp only [decodeShort, hkind]

theorem decodeShort_required_next {arg : Bytes} :
    decodeShort call element c [] (arg :: behind) =
      { code := charInt c, optarg := some arg, passed := 2, nextchar := none } := by
  simp only [decodeShort, hkind]

theorem decodeShort_required_cons {b : UInt8} :
    decodeShort call element c (b :: cs) behind =
      { code := charInt c, optarg := some (b :: cs), passed := 1, nextchar := none } := by
  simp only [decodeShort, hkind]

end Kinds

theorem decode_short (honly : call.longOnly = false)
    (hshort : call.longopts = none ∨ element[1]? ≠ some 45) :
    decode call element c cs behind = decodeShort call element c cs behind := by
  unfold decode
  rcases hshort with hnone | hdash
  · simp [hnone]
  · cases call.longopts <;> simp [hdash, honly]

theorem behindElement_cons (e : OptionEvent) (p : List OptionEvent × Bool) :
    behindElement call ordering element behind (e :: p.1, p.2) =
      (behindElement call ordering element behind p).after [e] [] := by
  obtain ⟨events, takes⟩ := p
  cases takes <;> cases behind <;> rfl

/-- The scan behind an element, whatever is read there. -/
def ReadsBehind (args : GetoptArgs) (prog : Bytes) (ordering : ArgOrdering) (n : Nat) : Prop :=
  ∀ s a, Scans args prog s a → a.nextchar = [] → a.rest.length ≤ n → s.ordering = ordering →
    Completes args prog s a.options a.skipped (scan (args.toCall prog) ordering a.rest)

/-- Decoding is done with the element and has passed `passed` with it. -/
theorem ReadsBehind.of_passed {n : Nat} (hn : ReadsBehind args prog ordering n) {d : Decoded}
    {passed : List Bytes}
    (h : Answers args prog ordering (getoptInternal args s) (some d, a.move d))
    (hne : d.code ≠ -1) (hnext : d.nextchar.getD [] = []) (hrest : a.rest = passed ++ rest)
    (hpassed : d.passed = passed.length) (hle : rest.length ≤ n) :
    Completes args prog s a.options a.skipped
      ((scan (args.toCall prog) ordering rest).after [(d.code, d.optarg)] passed) := by
  obtain ⟨hcode, hoptarg, hord, hscans⟩ := h
  refine Completes.of_call hcode hne hoptarg ?_
  have hmove : (a.move d).options = a.options ++ passed ∧ (a.move d).rest = rest := by
    simp [Scanner.move, hrest, hpassed]
  have hread := hn _ _ hscans hnext (by rw [hmove.2]; exact hle) hord
  rwa [hmove.1, hmove.2] at hread

/-- The cluster is read from `text` on, and what follows its element is read behind it. -/
def ReadsCluster (args : GetoptArgs) (prog : Bytes) (ordering : ArgOrdering) (element : Bytes)
    (behind : List Bytes) (text : Bytes) : Prop :=
  ∀ (s : GetoptState) (a : Scanner), a.rest = element :: behind →
    Answers args prog ordering (getoptInternal args s)
      (a.decodeFrom (args.toCall prog) text) →
    Completes args prog s a.options a.skipped
      (behindElement (args.toCall prog) ordering element behind
        (cluster (args.toCall prog) text behind))

/-- Behind a character without an argument the element ends, or the next call goes on in it. -/
theorem ReadsBehind.stays {n : Nat} (hn : ReadsBehind args prog ordering n) (hargs : args.Plain)
    (hle : behind.length ≤ n)
    (hcluster : cs ≠ [] → ReadsCluster args prog ordering element behind cs)
    (hrest : a.rest = element :: behind) {d : Decoded}
    (h : Answers args prog ordering (getoptInternal args s) (some d, a.move d))
    (hne : d.code ≠ -1) (hnext : d.nextchar = some cs)
    (hpassed : d.passed = if cs = [] then 1 else 0) :
    Completes args prog s a.options a.skipped
      (behindElement (args.toCall prog) ordering element behind
        ((d.code, d.optarg) :: (cluster (args.toCall prog) cs behind).1,
          (cluster (args.toCall prog) cs behind).2)) := by
  rw [behindElement_cons]
  by_cases hcs : cs = []
  · subst hcs
    have hone : d.passed = [element].length := by simpa using hpassed
    have hread := hn.of_passed h hne (by simp [hnext]) (by simpa using hrest) hone hle
    simpa [Rblpolicyd.cluster, behindElement, Scanned.after] using hread
  · obtain ⟨hret, hopt, hord, hscans⟩ := h
    have hzero : d.passed = 0 := by simpa [hcs] using hpassed
    have hmove : (a.move d).options = a.options ∧ (a.move d).rest = a.rest := by
      simp [Scanner.move, hzero]
    have hinside : (a.move d).nextchar = cs := by simp [Scanner.move, hnext]
    have hanswers := hscans.answers_next hargs.noW
    rw [Scanner.next, if_neg (by rw [hinside]; exact hcs), hinside, hord] at hanswers
    apply Completes.of_call hret hne hopt
    rw [List.append_nil]
    have hrec := hcluster hcs _ _ (by rw [hmove.2, hrest]) hanswers
    rwa [hmove.1] at hrec

/-- A cluster is decoded a character a call. -/
theorem ReadsBehind.cluster {n : Nat} (hn : ReadsBehind args prog ordering n)
    (hargs : args.Plain)
    (hshort : (args.toCall prog).longopts = none ∨ element[1]? ≠ some 45)
    (hle : behind.length ≤ n) (text : Bytes) (hne : text ≠ []) :
    ReadsCluster args prog ordering element behind text := by
  induction text with
  | nil => exact absurd rfl hne
  | cons c cs ih =>
    intro s a hrest h
    rw [Scanner.decodeFrom] at h
    simp only [hrest, List.headD_cons, List.tail_cons, decode_short hargs.longOnly hshort] at h
    have hdecoded : ∀ d : Decoded, decodeShort (args.toCall prog) element c cs behind = d →
        Answers args prog ordering (getoptInternal args s) (some d, a.move d) := by
      intro d hd
      rwa [hd] at h
    have hchar : argKind args.optstring c ≠ .unknown → charInt c ≠ -1 :=
      fun hknown => charInt_ne hknown hargs.noChar
    -- an argument ends the element
    have hpass : ∀ d : Decoded, decodeShort (args.toCall prog) element c cs behind = d →
        d.nextchar = none → d.code ≠ -1 → ∀ passed rest, a.rest = passed ++ rest →
        d.passed = passed.length → rest.length ≤ n →
        Completes args prog s a.options a.skipped
          ((scan (args.toCall prog) ordering rest).after [(d.code, d.optarg)] passed) := by
      intro d hd hnext hne passed rest hsplit hpassed hle
      exact hn.of_passed (hdecoded d hd) hne (by simp [hnext]) hsplit hpassed hle
    rw [Rblpolicyd.cluster.eq_def]
    cases hkind : argKind args.optstring c with
    | unknown =>
      simp only [GetoptArgs.toCall, hkind]
      exact hn.stays hargs hle ih hrest (hdecoded _ (decodeShort_unknown hkind)) (by simp) rfl rfl
    | plain =>
      simp only [GetoptArgs.toCall, hkind]
      exact hn.stays hargs hle ih hrest (hdecoded _ (decodeShort_plain hkind))
        (hchar (by simp [hkind])) rfl rfl
    | optional =>
      simp only [GetoptArgs.toCall, hkind]
      exact hpass _ (decodeShort_optional hkind) rfl (hchar (by simp [hkind])) [element] behind
        hrest rfl hle
    | required =>
      simp only [GetoptArgs.toCall, hkind]
      cases cs with
      | cons b text =>
        exact hpass _ (decodeShort_required_cons hkind) rfl (hchar (by simp [hkind])) [element]
          behind hrest rfl hle
      | nil =>
        cases behind with
        | nil =>
          exact hpass _ (decodeShort_required_nil hkind) rfl missingArgument_ne [element] [] hrest
            rfl hle
        | cons arg behind =>
          rw [List.length_cons] at hle
          exact hpass _ (decodeShort_required_next hkind) rfl (hchar (by simp [hkind]))
            [element, arg] behind hrest rfl (by omega)
    | long =>
      obtain rfl := eq_of_argKind_long hkind
      exact absurd hkind hargs.noW

theorem mem_of_lookupLong {name : Bytes} {p : LongOption}
    (h : lookupLong name longopts = some p) : p ∈ longopts := by
  unfold lookupLong at h
  split at h
  · rename_i q hq
    obtain rfl := Option.some.inj h
    exact List.mem_of_find?_eq_some hq
  · split at h
    · rename_i q hq
      obtain rfl := Option.some.inj h
      have hmem : q ∈ longopts.filter (name.isPrefixOf ·.name) := by rw [hq]; simp
      exact List.mem_of_mem_filter hmem
    · simp at h

theorem longEvent_ne (hval : ∀ p ∈ longopts, p.code ≠ -1) (text : Bytes) :
    (longEvent call longopts text behind).1.1 ≠ -1 := by
  unfold longEvent
  split
  · simp
  · rename_i p _ value hlookup _
    split_ifs
    · exact hval p (mem_of_lookupLong hlookup)
    · simp
  · rename_i p arg _ hlookup _
    split_ifs <;> exact hval p (mem_of_lookupLong hlookup)
  · rename_i p hlookup _
    split_ifs
    · exact missingArgument_ne
    · exact hval p (mem_of_lookupLong hlookup)

theorem exists_of_takes {text : Bytes} (h : (longEvent call longopts text behind).2 = true) :
    ∃ arg behind', behind = arg :: behind' := by
  unfold longEvent at h
  split at h
  · simp at h
  · simp at h
  · exact ⟨_, _, rfl⟩
  · simp at h

/-- A long option is decoded in one call. -/
theorem ReadsBehind.long {n : Nat} (hn : ReadsBehind args prog ordering n) (hargs : args.Plain)
    {longopts : List LongOption} (hlong : args.longopts = some longopts)
    (hdash : element[1]? = some 45) (hle : behind.length ≤ n) (hrest : a.rest = element :: behind)
    (hne : element.drop 2 ≠ [])
    (h : Answers args prog ordering (getoptInternal args s)
      (a.decodeFrom (args.toCall prog) (element.drop 2))) :
    Completes args prog s a.options a.skipped
      (behindElement (args.toCall prog) ordering element behind
        (([(longEvent (args.toCall prog) longopts (element.drop 2) behind).1]),
          (longEvent (args.toCall prog) longopts (element.drop 2) behind).2)) := by
  obtain ⟨c, cs, htext⟩ := List.exists_cons_of_ne_nil hne
  obtain ⟨d, hdecode, hreturns⟩ : ∃ d, decodeLong (args.toCall prog) longopts element (c :: cs)
      behind = some d ∧ d.Returns (longEvent (args.toCall prog) longopts (c :: cs) behind) :=
    decodeLong_returns hargs.longOnly (c :: cs)
  rw [htext] at h ⊢
  have hd : decode (args.toCall prog) (a.rest.headD []) c cs a.rest.tail = d := by
    simp only [hrest, List.headD_cons, List.tail_cons, decode, GetoptArgs.toCall, hlong,
      Option.bind_some, hdash, true_or, if_true]
    rw [GetoptArgs.toCall, hlong] at hdecode
    rw [hdecode, Option.getD_some]
  rw [Scanner.decodeFrom] at h
  simp only [hd] at h
  have hevent := hreturns.event
  have hpassed := hreturns.passed
  have hnext : d.nextchar.getD [] = [] := by rw [hreturns.nextchar]; rfl
  have hcode : d.code ≠ -1 := by
    have hval : ∀ p ∈ longopts, p.code ≠ -1 := by simpa [hlong] using hargs.noVal
    have hfst : d.code = _ := congrArg Prod.fst hevent
    rw [hfst]
    exact longEvent_ne hval _
  cases htakes : (longEvent (args.toCall prog) longopts (c :: cs) behind).2 with
  | false =>
    have hone : d.passed = [element].length := by simpa [htakes] using hpassed
    have hread := hn.of_passed h hcode hnext (by simpa using hrest) hone hle
    rw [hevent] at hread
    cases behind <;> exact hread
  | true =>
    obtain ⟨arg, behind, rfl⟩ := exists_of_takes htakes
    have htwo : d.passed = [element, arg].length := by simpa [htakes] using hpassed
    rw [List.length_cons] at hle
    have hread := hn.of_passed h hcode hnext (by simpa using hrest) htwo (by omega)
    rwa [hevent] at hread

/-- Under `PERMUTE` an element that comes behind the skipped ones is an option. -/
theorem Scanner.skip_spec (a : Scanner) (ordering : ArgOrdering) :
    (a.skip ordering).rest.length ≤ a.rest.length ∧
      ∀ element behind, (a.skip ordering).rest = element :: behind → ordering = .permute →
        nonoption element = false := by
  unfold Scanner.skip
  split_ifs with hperm
  · refine ⟨(List.dropWhile_sublist _).length_le, ?_⟩
    intro element behind hrest _
    have hrest' : a.rest.dropWhile nonoption = element :: behind := hrest
    have hhead := List.head?_dropWhile_not nonoption a.rest
    rw [hrest'] at hhead
    exact hhead
  · exact ⟨Nat.le_refl _, fun _ _ _ h => absurd h hperm⟩

theorem scan_of_skip (a : Scanner) (ordering : ArgOrdering)
    (h : Completes args prog s (a.skip ordering).options (a.skip ordering).skipped
      (scan call ordering (a.skip ordering).rest)) :
    Completes args prog s a.options a.skipped (scan call ordering a.rest) := by
  unfold Scanner.skip at h
  split_ifs at h with hperm
  · subst hperm
    obtain ⟨s', hrun, hargv, hoptind⟩ := h
    rw [scan_skip]
    refine ⟨s', hrun, ?_, hoptind⟩
    simpa [List.append_assoc] using hargv
  · exact h

/-- The reading of an element that is not skipped. -/
theorem ReadsBehind.nextElement (hargs : args.Plain) {n : Nat} {b : Scanner}
    (hn : ∀ m < n, ReadsBehind args prog ordering m) (hle : b.rest.length ≤ n)
    (hskipped : ∀ element behind, b.rest = element :: behind → ordering = .permute →
      nonoption element = false)
    (h : Answers args prog ordering (getoptInternal args s)
      (b.nextElement (args.toCall prog) ordering)) :
    Completes args prog s b.options b.skipped (scan (args.toCall prog) ordering b.rest) := by
  rw [Scanner.nextElement] at h
  rcases hrest : b.rest with _ | ⟨element, behind⟩
  · rw [hrest] at h
    exact Completes.of_finished h.1 h.2 rfl (by simp [scan]) (by simp [scan, hrest])
  · rw [hrest] at h hle
    rw [List.length_cons] at hle
    have hbehind := hn behind.length (by omega)
    by_cases hdash : element = ascii "--"
    · subst hdash
      simp only [if_true] at h
      rw [scan_end]
      exact Completes.of_finished h.1 h.2 rfl rfl (by simp)
    · simp only [if_neg hdash] at h
      cases hnon : nonoption element with
      | true =>
        simp only [hnon, if_true] at h
        cases ordering with
        | permute => exact absurd (hskipped element behind hrest rfl) (by simp [hnon])
        | requireOrder =>
          simp only [if_true] at h
          rw [scan.eq_def]
          simp only [if_neg hdash, hnon, if_true]
          exact Completes.of_finished h.1 h.2 rfl (by simp) (by rw [hrest])
        | returnInOrder =>
          simp only [reduceCtorEq, if_false] at h
          rw [scan.eq_def]
          simp only [if_neg hdash, hnon, if_true]
          exact hbehind.of_passed h (by simp) rfl (by simpa using hrest) rfl (Nat.le_refl _)
      | false =>
        simp only [hnon, Bool.false_eq_true, if_false] at h
        rw [scan_element hdash hnon, elementEvents.eq_def]
        cases hlong : (args.toCall prog).longopts with
        | none =>
          simp only [hlong, Option.isSome_none, Bool.false_eq_true, false_and, if_false] at h ⊢
          exact hbehind.cluster hargs (Or.inl hlong) (Nat.le_refl _) _
            (drop_marks_ne_nil hnon hdash (Or.inl rfl)) _ _ hrest h
        | some longopts =>
          simp only [hlong, Option.isSome_some, true_and] at h ⊢
          by_cases hdouble : element[1]? = some 45
          · simp only [hdouble, if_true] at h ⊢
            exact hbehind.long hargs hlong hdouble (Nat.le_refl _) hrest
              (drop_marks_ne_nil hnon hdash (Or.inr ⟨rfl, hdouble⟩)) h
          · simp only [hdouble, if_false] at h ⊢
            exact hbehind.cluster hargs (Or.inr hdouble) (Nat.le_refl _) _
              (drop_marks_ne_nil hnon hdash (Or.inl rfl)) _ _ hrest h

/-- From between two elements on, the calls return what is read of the rest. -/
theorem readsBehind (hargs : args.Plain) (ordering : ArgOrdering) (n : Nat) :
    ReadsBehind args prog ordering n := by
  induction n using Nat.strong_induction_on with
  | _ n ih =>
    intro s a hscans hbetween hle hord
    have hanswers := hscans.answers_next hargs.noW
    rw [Scanner.next, if_pos hbetween, hord] at hanswers
    obtain ⟨hlength, hskipped⟩ := a.skip_spec ordering
    exact scan_of_skip a ordering
      (ReadsBehind.nextElement hargs ih (hlength.trans hle) hskipped hanswers)

/-- The state the program starts in. -/
def initialGetopt (prog : Bytes) (rest : List Bytes) : GetoptState := { argv := prog :: rest }

/-- `POSIXLY_CORRECT` stops the scan at the first non-option. -/
def GetoptArgs.argOrdering (args : GetoptArgs) : ArgOrdering :=
  if args.posixlyCorrect then .requireOrder else .permute

/-- The state after the initialisation of the first call. -/
def startedGetopt (args : GetoptArgs) (prog : Bytes) (rest : List Bytes) : GetoptState :=
  { initialGetopt prog rest with
    initialized := true
    posixlyCorrect := args.posixlyCorrect
    firstNonopt := 1
    lastNonopt := 1
    ordering := args.argOrdering }

/-- The first call is a call from the initialised state. -/
theorem getoptInternal_initial (hargs : args.Plain) (prog : Bytes) (rest : List Bytes) :
    getoptInternal args (initialGetopt prog rest) =
      getoptInternal args (startedGetopt args prog rest) := by
  have hinit : getoptInitialize args (initialGetopt prog rest) =
      (args.optstring, { startedGetopt args prog rest with initialized := false }) := by
    unfold getoptInitialize
    split
    · rename_i text hoptstring
      exact absurd (by simp [hoptstring]) hargs.noMark.1
    · rename_i text hoptstring
      exact absurd (by simp [hoptstring]) hargs.noMark.2
    · rfl
  have hfirst : getoptInternal args (initialGetopt prog rest) =
      getoptScan args args.optstring (startedGetopt args prog rest) := by
    have hscan := congrArg (fun r : Bytes × GetoptState =>
      getoptScan args r.1 { r.2 with initialized := true }) hinit
    exact hscan
  have hlater : getoptInternal args (startedGetopt args prog rest) =
      getoptScan args args.optstring (startedGetopt args prog rest) := by
    unfold getoptInternal
    exact if_neg (by simp [startedGetopt, initialGetopt])
  rw [hfirst, hlater]

theorem scans_started (args : GetoptArgs) (prog : Bytes) (rest : List Bytes) :
    Scans args prog (startedGetopt args prog rest) ⟨[], [], rest, []⟩ :=
  ⟨rfl, rfl, ⟨[], [], rfl, rfl, rfl, rfl, rfl⟩, rfl, absurd rfl, fun _ => rfl⟩

/-- A run only depends on what its first call does. -/
theorem GetoptRun.of_call_eq {s' : GetoptState} {events : List OptionEvent} {t : GetoptState}
    (hrun : GetoptRun args t events s') (h : getoptInternal args s = getoptInternal args t) :
    GetoptRun args s events s' := by
  cases hrun with
  | done hcall => exact .done (h.trans hcall)
  | call hcall hne hrun => exact .call (h.trans hcall) hne hrun

/-- The calls until -1 return what the recursion reads from the command line. They leave
the option elements in front and the others behind them, each in the order of the command
line, with `optind` at the first of the others. -/
theorem getopt_run (args : GetoptArgs) (hargs : args.Plain) (prog : Bytes) (rest : List Bytes) :
    ∃ s', GetoptRun args (initialGetopt prog rest)
        (scan (args.toCall prog) args.argOrdering rest).events s' ∧
      s'.argv = prog :: ((scan (args.toCall prog) args.argOrdering rest).options ++
        (scan (args.toCall prog) args.argOrdering rest).nonoptions) ∧
      s'.optind = 1 + (scan (args.toCall prog) args.argOrdering rest).options.length := by
  obtain ⟨s', hrun, hargv, hoptind⟩ := readsBehind hargs args.argOrdering rest.length
    (startedGetopt args prog rest) _ (scans_started args prog rest) rfl (Nat.le_refl _) rfl
  refine ⟨s', ?_, by simpa using hargv, by simpa using hoptind⟩
  exact hrun.of_call_eq (getoptInternal_initial hargs prog rest)

/-- Options as a small program takes them: `-a`, and `-b` with an argument. -/
def smallArgs : GetoptArgs where
  optstring := ascii "ab:"
  longopts := none
  longOnly := false

theorem smallArgs_plain : smallArgs.Plain := by
  refine ⟨rfl, ?_, ?_, ?_, ?_⟩ <;> simp only [smallArgs] <;> decide +kernel

/-! ### No argument is lost -/

/-- The elements of the command line are taken apart: each is in one of the two parts, in the
order of the command line. -/
structure Scanned.Partition (r : Scanned) (rest : List Bytes) : Prop where
  perm : (r.options ++ r.nonoptions).Perm rest
  options : r.options.Sublist rest
  nonoptions : r.nonoptions.Sublist rest

/-- Option elements in front stay in front. -/
theorem Scanned.Partition.after {r : Scanned} (h : r.Partition rest)
    (events : List OptionEvent) (front : List Bytes) :
    (r.after events front).Partition (front ++ rest) where
  perm := by
    rw [Scanned.after, List.append_assoc]
    exact h.perm.append_left front
  options := h.options.append_left front
  nonoptions := h.nonoptions.trans (List.sublist_append_right front rest)

theorem scan_partition (call : GetoptCall) (ordering : ArgOrdering) (rest : List Bytes) :
    (scan call ordering rest).Partition rest := by
  fun_induction scan call ordering rest with
  | case1 => exact ⟨.refl _, .refl _, .refl _⟩
  | case2 behind => exact ⟨.refl _, by simp, List.sublist_cons_self _ _⟩
  | case3 element behind hdash hnon => exact ⟨.refl _, List.nil_sublist _, .refl _⟩
  | case4 element behind hdash hnon r ih =>
    refine ⟨?_, ih.options.trans (List.sublist_cons_self _ _), ih.nonoptions.cons_cons element⟩
    exact List.perm_middle.trans (ih.perm.cons element)
  | case5 element behind hdash hnon ih => exact ih.after _ [element]
  | case6 ordering element hdash hnon events arg behind hevents ih =>
    simp only [hevents]
    exact ih.after events [element, arg]
  | case7 ordering element hdash hnon events takes behind hno hevents ih =>
    simp only [hevents]
    exact ih.after events [element]

/-- Behind the option elements that `getopt` brings to the front there are no others, up to an
element that ends the options. -/
theorem nonoption_of_mem_scan {e : Bytes} (hordering : ordering = .permute)
    (hend : ascii "--" ∉ rest) (he : e ∈ (scan call ordering rest).nonoptions) :
    nonoption e = true := by
  fun_induction scan call ordering rest with
  | case1 => cases he
  | case2 behind => exact absurd List.mem_cons_self hend
  | case3 element behind hdash hnon => cases hordering
  | case4 element behind hdash hnon r ih =>
    rcases List.mem_cons.mp he with rfl | he
    · exact hnon
    · exact ih rfl (List.not_mem_of_not_mem_cons hend) he
  | case5 element behind hdash hnon ih => cases hordering
  | case6 ordering element hdash hnon events arg behind hevents ih =>
    simp only [hevents] at he
    have hbehind := List.not_mem_of_not_mem_cons (List.not_mem_of_not_mem_cons hend)
    exact ih hordering hbehind he
  | case7 ordering element hdash hnon events takes behind hno hevents ih =>
    simp only [hevents] at he
    exact ih hordering (List.not_mem_of_not_mem_cons hend) he

/-- The calls until -1 return what the recursion reads from the command line, and leave in `argv`
the program's name, the option elements and their arguments, and from `optind` on the others,
each in the order of the command line: together all that was on it, each just once. Where
arguments are permuted no option is left behind `optind`, unless an element ends the options. -/
theorem getopt_permutes (args : GetoptArgs) (hargs : args.Plain) (prog : Bytes)
    (rest : List Bytes) :
    (∃ s', GetoptRun args (initialGetopt prog rest)
        (scan (args.toCall prog) args.argOrdering rest).events s' ∧
      s'.argv = prog :: ((scan (args.toCall prog) args.argOrdering rest).options ++
        (scan (args.toCall prog) args.argOrdering rest).nonoptions) ∧
      s'.optind = 1 + (scan (args.toCall prog) args.argOrdering rest).options.length) ∧
    (scan (args.toCall prog) args.argOrdering rest).Partition rest ∧
    (args.argOrdering = .permute → ascii "--" ∉ rest →
      ∀ e ∈ (scan (args.toCall prog) args.argOrdering rest).nonoptions, nonoption e = true) :=
  ⟨getopt_run args hargs prog rest, scan_partition _ _ _,
    fun hordering hend _ he => nonoption_of_mem_scan hordering hend he⟩

theorem getopt_permutes_smallArgs :
    (∃ s', GetoptRun smallArgs (initialGetopt (ascii "p") [ascii "x", ascii "-ab", ascii "y"])
        [(97, none), (98, some (ascii "y"))] s' ∧
      s'.argv = [ascii "p", ascii "-ab", ascii "y", ascii "x"] ∧ s'.optind = 3) ∧
    ∀ e ∈ [ascii "x"], nonoption e = true := by
  have hscan : scan (smallArgs.toCall (ascii "p")) smallArgs.argOrdering
      [ascii "x", ascii "-ab", ascii "y"] =
      ⟨[(97, none), (98, some (ascii "y"))], [ascii "-ab", ascii "y"], [ascii "x"]⟩ := by
    decide +kernel
  have hpermutes := getopt_permutes smallArgs smallArgs_plain (ascii "p")
    [ascii "x", ascii "-ab", ascii "y"]
  rw [hscan] at hpermutes
  exact ⟨hpermutes.1, hpermutes.2.2 (by decide) (by decide +kernel)⟩

end Rblpolicyd
