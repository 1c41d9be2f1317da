import Rblpolicyd.Libc.Numerals
import Rblpolicyd.Options.CommandLine

/-!
# The options of the daemon

The first part of `main`: `getopt_long` is called until it returns -1, every option
changes a setting or ends the program, and behind the options there has to be just one
argument, the port. The names in the table of long options are written with their
dashes, so that `--verbose` is not among them: what is looked up is the text behind the
dashes.

## Main definitions

* `longOptions`, `mainArgs` — what `main` passes to `getopt_long`
* `takeOption`, `optionLoop`, `mainOptions` — the loop and the check behind it
* `settle` — the settings that a list of events leads to

## Main results

* `mainOptions_eq` — the settings are read off the command line by `scan`
* `mainOptions_permuted` — an accepted command line can as well be written in the order
  that `getopt` leaves it in
* `documented_long_refused` — no long option in its documented spelling is accepted
-/

namespace Rblpolicyd

open Libc

/-- `long_options`. -/
def longOptions : List LongOption := [
  ⟨ascii "--verbose", 0, none, 118⟩,
  ⟨ascii "--debug", 0, none, 100⟩,
  ⟨ascii "--foreground", 0, none, 102⟩,
  ⟨ascii "--cfgfile", 1, none, 99⟩,
  ⟨ascii "--pidfile", 1, none, 112⟩,
  ⟨ascii "--max-children", 1, none, 109⟩,
  ⟨ascii "--help", 0, none, 104⟩,
  ⟨ascii "--version", 0, none, 86⟩]

/-- The arguments of `getopt_long` in `main`. -/
def mainArgs (posixlyCorrect : Bool) : GetoptArgs where
  optstring := ascii "vdfc:p:m:hV"
  longopts := some longOptions
  longOnly := false
  posixlyCorrect := posixlyCorrect

/-- `atoi`. -/
def atoi (s : Bytes) : Int := ((scanInt s).map (·.1)).getD 0

/-- The settings; `verbose`, `debug` and `foreground` count in a `char`. -/
structure Settings where
  verbose : Int := 0
  debug : Int := 0
  foreground : Int := 0
  maxthreads : Int := 10
  cfgpath : Bytes := ascii "/etc/rbl-policyd.conf"
  pidfile : Bytes := ascii "/var/run/rblpolicyd.pid"
  deriving DecidableEq

/-- `++` on a `char`. -/
def charSucc (n : Int) : Int := (n + 1).bmod 256

/-- The end of the program: its status, and what `main` itself has printed; the line that `getopt`
prints about an element is in its own state. -/
structure Exit where
  status : Int
  stdout : Bytes := []
  stderr : Bytes := []
  deriving DecidableEq

/-- `usage`. -/
def usage (prog : Bytes) (settings : Settings) (status : Int) : Exit where
  status := status
  stdout :=
    prog ++ ascii " - a policy daemon for Postfix which allows combining different RBLs " ++
    ascii "with weights.\n" ++
    ascii "Usage: " ++ prog ++ ascii " [OPTION]... <port>\n" ++
    ascii "<port> may be either a UNIX socket path, a host:port pair, or a plain\n" ++
    ascii "port name oder -number.\n" ++
    ascii "Options:\n  -v, --verbose              verbose output\n" ++
    ascii "  -d, --debug                show debug output\n" ++
    ascii "  -f, --foreground           keep program in foreground\n" ++
    ascii "  -m, --maxthreads n         create up to N worker threads (0=disable threads)\n" ++
    ascii "  -c FILE, --cfgfile FILE    use config file FILE (current: " ++ settings.cfgpath ++
    ascii ")\n  -p FILE, --pidfile FILE    use file FILE to store pid (current: " ++
    settings.pidfile ++ ascii ")\n" ++
    ascii "  -h, --help                 display this help and exit\n" ++
    ascii "  -V, --version              output version information and exit\n"

/-- The `switch` on the value that `getopt_long` returned. -/
def takeOption (prog : Bytes) (settings : Settings) (c : Int) (optarg : Option Bytes) :
    Exit ⊕ Settings :=
  if c = 118 then .inr { settings with verbose := charSucc settings.verbose }
  else if c = 100 then .inr { settings with debug := charSucc settings.debug }
  else if c = 102 then .inr { settings with foreground := charSucc settings.foreground }
  else if c = 99 then .inr { settings with cfgpath := optarg.getD [] }
  else if c = 112 then .inr { settings with pidfile := optarg.getD [] }
  else if c = 109 then .inr { settings with maxthreads := atoi (optarg.getD []) }
  else if c = 104 then .inl (usage prog settings 0)
  else if c = 86 then .inl { status := 0, stdout := ascii "rblpolicyd 0.2.0\n" }
  else
    let exit := usage prog settings 1
    .inl { exit with
      stderr := prog ++ ascii ": Unknown option '" ++ [UInt8.ofNat (c % 256).toNat] ++
        ascii "' passed\n" }

/-- The option loop; no result where the fuel is used up. -/
def optionLoop (args : GetoptArgs) (prog : Bytes) :
    Nat → GetoptState → Settings → Option (Exit ⊕ (Settings × GetoptState))
  | 0, _, _ => none
  | fuel + 1, s, settings =>
    let (c, s) := getoptInternal args s
    if c = -1 then some (.inr (settings, s))
    else
      match takeOption prog settings c s.optarg with
      | .inl exit => some (.inl exit)
      | .inr settings => optionLoop args prog fuel s settings

/-- As many calls as there can be: one for each character and each element. -/
def optionFuel (rest : List Bytes) : Nat := (rest.map (·.length + 1)).sum + 1

/-- `main` up to its port: an exit, or the settings with the port. -/
def mainOptions (posixlyCorrect : Bool) (prog : Bytes) (rest : List Bytes) :
    Option (Exit ⊕ (Settings × Bytes)) :=
  (optionLoop (mainArgs posixlyCorrect) prog (optionFuel rest) (initialGetopt prog rest) {}).map
    fun
      | .inl exit => .inl exit
      | .inr (settings, s) =>
        if (s.argv.length : Int) - s.optind ≠ 1 then .inl (usage prog settings 1)
        else .inr (settings, s.argv[s.optind]?.getD [])

/-! ### The settings that are read -/

/-- The settings that a list of events leads to. -/
def settle (prog : Bytes) : Settings → List OptionEvent → Exit ⊕ Settings
  | settings, [] => .inr settings
  | settings, (c, optarg) :: events =>
    match takeOption prog settings c optarg with
    | .inl exit => .inl exit
    | .inr settings => settle prog settings events

/-- The settings and the port of a command line that was taken apart. -/
def Scanned.settings (prog : Bytes) (r : Scanned) : Exit ⊕ (Settings × Bytes) :=
  match settle prog {} r.events with
  | .inl exit => .inl exit
  | .inr settings =>
    match r.nonoptions with
    | [port] => .inr (settings, port)
    | _ => .inl (usage prog settings 1)

theorem mainArgs_plain (posixlyCorrect : Bool) : (mainArgs posixlyCorrect).Plain := by
  constructor
  · rfl
  · constructor <;> simp only [mainArgs] <;> decide +kernel
  · simp only [mainArgs]
    decide +kernel
  · simp only [mainArgs]
    decide +kernel
  · simp only [mainArgs, Option.getD_some]
    decide +kernel

variable {args : GetoptArgs} {call : GetoptCall} {prog element : Bytes} {s s' : GetoptState}
  {events : List OptionEvent} {behind behind' rest : List Bytes} {ordering : ArgOrdering}

/-- The loop settles for what its events lead to. -/
theorem optionLoop_eq (hrun : GetoptRun args s events s') (settings : Settings) {fuel : Nat}
    (hfuel : events.length < fuel) :
    optionLoop args prog fuel s settings =
      some (match settle prog settings events with
        | .inl exit => .inl exit
        | .inr settings => .inr (settings, s')) := by
  induction hrun generalizing settings fuel with
  | done hcall =>
    obtain ⟨fuel, rfl⟩ := Nat.exists_eq_add_of_lt hfuel
    rw [List.length_nil, Nat.zero_add, optionLoop, hcall]
    simp [settle]
  | @call s s₁ _ code events hcall hne _ ih =>
    obtain ⟨fuel, rfl⟩ : ∃ n, fuel = n + 1 := ⟨fuel - 1, by omega⟩
    rw [List.length_cons] at hfuel
    rw [optionLoop, hcall, settle]
    simp only [hne, if_false]
    cases takeOption prog settings code s₁.optarg with
    | inl exit => rfl
    | inr settings => exact ih settings (by omega)

/-! ### How many events there are -/

theorem length_cluster_le (call : GetoptCall) (text : Bytes) (behind : List Bytes) :
    (cluster call text behind).1.length ≤ text.length := by
  induction text with
  | nil => simp [cluster]
  | cons c cs ih =>
    rw [cluster.eq_def]
    simp only
    split <;> simp only [List.length_cons, List.length_nil] <;> omega

theorem length_elementEvents_le (call : GetoptCall) (behind : List Bytes) (hne : element ≠ []) :
    (elementEvents call element behind).1.length ≤ element.length := by
  have hpos : 0 < element.length := List.length_pos_iff.mpr hne
  have hcluster := length_cluster_le call (element.drop 1) behind
  rw [List.length_drop] at hcluster
  unfold elementEvents
  split
  · split_ifs
    · simp only [List.length_singleton]
      omega
    · omega
  · omega

theorem ne_nil_of_option (hnon : nonoption element = false) : element ≠ [] := by
  rintro rfl
  simp [nonoption] at hnon

theorem length_events_le (call : GetoptCall) (ordering : ArgOrdering) (rest : List Bytes) :
    (scan call ordering rest).events.length ≤ (rest.map (·.length + 1)).sum := by
  induction hn : rest.length using Nat.strong_induction_on generalizing rest with
  | _ n ih =>
    cases rest with
    | nil => simp [scan]
    | cons element behind =>
      rw [List.length_cons] at hn
      have hbehind := ih behind.length (by omega) behind rfl
      rw [List.map_cons, List.sum_cons]
      by_cases hdash : element = ascii "--"
      · rw [hdash, scan_end]
        simp
      · cases hnon : nonoption element with
        | true =>
          rw [scan.eq_def]
          simp only [if_neg hdash, hnon, if_true]
          cases ordering with
          | requireOrder => simp
          | permute => exact hbehind.trans (Nat.le_add_left _ _)
          | returnInOrder =>
            simp only [Scanned.after, List.length_append, List.length_singleton]
            omega
        | false =>
          have helement := length_elementEvents_le call behind (ne_nil_of_option hnon)
          rw [scan_element hdash hnon]
          rcases hevents : elementEvents call element behind with ⟨events, takes⟩
          replace helement : events.length ≤ element.length := by
            rwa [hevents] at helement
          have hplain : ((scan call ordering behind).after events [element]).events.length ≤
              element.length + 1 + (behind.map (·.length + 1)).sum := by
            simp only [Scanned.after, List.length_append]
            omega
          cases takes with
          | false => cases behind <;> exact hplain
          | true =>
            cases behind with
            | nil => exact hplain
            | cons arg behind =>
              have hlater := ih behind.length (by simp at hn; omega) behind rfl
              simp only [behindElement, Scanned.after, List.length_append, List.map_cons,
                List.sum_cons]
              omega

/-- The settings and the port are read off the command line. -/
theorem mainOptions_eq (posixlyCorrect : Bool) (prog : Bytes) (rest : List Bytes) :
    mainOptions posixlyCorrect prog rest =
      some ((scan ((mainArgs posixlyCorrect).toCall prog) (mainArgs posixlyCorrect).argOrdering
        rest).settings prog) := by
  obtain ⟨s', hrun, hargv, hoptind⟩ :=
    getopt_run (mainArgs posixlyCorrect) (mainArgs_plain posixlyCorrect) prog rest
  generalize hr : scan ((mainArgs posixlyCorrect).toCall prog)
    (mainArgs posixlyCorrect).argOrdering rest = r at hrun hargv hoptind ⊢
  have hfuel : r.events.length < optionFuel rest := by
    rw [← hr]
    exact Nat.lt_succ_of_le (length_events_le _ _ rest)
  have hcount : (s'.argv.length : Int) - s'.optind = r.nonoptions.length := by
    rw [hargv, hoptind]
    simp only [List.length_cons, List.length_append]
    omega
  have hport : s'.argv[s'.optind]? = r.nonoptions[0]? := by
    rw [hargv, hoptind, Nat.add_comm 1, List.getElem?_cons_succ,
      List.getElem?_append_right (Nat.le_refl _), Nat.sub_self]
  rw [mainOptions, optionLoop_eq hrun {} hfuel, Option.map_some, Scanned.settings]
  cases settle prog {} r.events with
  | inl exit => rfl
  | inr settings =>
    simp only [hcount, hport]
    rcases r.nonoptions with _ | ⟨port, _ | ⟨other, more⟩⟩
    · simp
    · simp
    · simp only [List.length_cons]
      rw [if_pos (by omega)]

/-! ### The order of the arguments -/

theorem cluster_congr (text : Bytes)
    (hmissing : ∀ e ∈ (cluster call text behind).1, e.1 ≠ call.missingArgument)
    (hhead : (cluster call text behind).2 = true → behind.head? = behind'.head?) :
    cluster call text behind' = cluster call text behind := by
  induction text with
  | nil => rfl
  | cons c cs ih =>
    rw [cluster.eq_def] at hmissing hhead
    rw [cluster.eq_def call (c :: cs), cluster.eq_def call (c :: cs)]
    simp only at hmissing hhead ⊢
    cases hkind : argKind call.optstring c with
    | optional => rfl
    | required =>
      simp only [hkind] at hmissing hhead ⊢
      cases cs with
      | cons b text => rfl
      | nil =>
        cases behind with
        | nil => exact absurd rfl (hmissing _ (List.mem_singleton_self _))
        | cons arg more =>
          cases behind' with
          | nil => simp at hhead
          | cons arg' more' =>
            have harg : arg = arg' := by simpa using hhead
            rw [harg]
    | unknown | plain | long =>
      simp only [hkind, List.forall_mem_cons] at hmissing hhead ⊢
      rw [ih hmissing.2 hhead]

theorem longEvent_congr {longopts : List LongOption} (text : Bytes)
    (hmissing : (longEvent call longopts text behind).1.1 ≠ call.missingArgument)
    (hhead : (longEvent call longopts text behind).2 = true → behind.head? = behind'.head?) :
    longEvent call longopts text behind' = longEvent call longopts text behind := by
  unfold longEvent at hmissing hhead ⊢
  generalize lookupLong (text.takeWhile (· ≠ 61)) longopts = found at hmissing hhead ⊢
  generalize text.dropWhile (· ≠ 61) = nameend at hmissing hhead ⊢
  cases found with
  | none => rfl
  | some p =>
    cases nameend with
    | cons mark value => rfl
    | nil =>
      by_cases harg : p.hasArg = 1
      · cases behind with
        | nil => simp [harg] at hmissing
        | cons arg more =>
          cases behind' with
          | nil => simp [harg] at hhead
          | cons arg' more' =>
            have heq : arg = arg' := by simpa [harg] using hhead
            rw [heq]
      · cases behind <;> cases behind' <;> simp [harg]

theorem elementEvents_congr
    (hmissing : ∀ e ∈ (elementEvents call element behind).1, e.1 ≠ call.missingArgument)
    (hhead : (elementEvents call element behind).2 = true → behind.head? = behind'.head?) :
    elementEvents call element behind' = elementEvents call element behind := by
  unfold elementEvents at hmissing hhead ⊢
  cases hlong : call.longopts with
  | none =>
    simp only [hlong] at hmissing hhead ⊢
    exact cluster_congr _ hmissing hhead
  | some longopts =>
    simp only [hlong] at hmissing hhead ⊢
    by_cases hdash : element[1]? = some 45
    · simp only [hdash, if_true, List.forall_mem_singleton] at hmissing hhead ⊢
      rw [longEvent_congr _ hmissing hhead]
    · simp only [hdash, if_false] at hmissing hhead ⊢
      exact cluster_congr _ hmissing hhead

/-- An element is read alike before other elements, but for a missing argument and for the
argument it takes. -/
theorem elementEvents_eq {takes : Bool} (h : elementEvents call element behind = (events, takes))
    (hmissing : ∀ e ∈ events, e.1 ≠ call.missingArgument)
    (hhead : takes = true → behind.head? = behind'.head?) :
    elementEvents call element behind' = (events, takes) := by
  rw [← h]
  apply elementEvents_congr
  · rwa [h]
  · rwa [h]

/-- An argument that is taken is there. -/
theorem cluster_takes (text : Bytes) (h : (cluster call text behind).2 = true) : behind ≠ [] := by
  induction text with
  | nil => simp [cluster] at h
  | cons c cs ih =>
    rw [cluster.eq_def] at h
    simp only at h
    split at h <;> simp_all

theorem elementEvents_takes (h : (elementEvents call element behind).2 = true) :
    behind ≠ [] := by
  unfold elementEvents at h
  split at h
  · split_ifs at h
    · obtain ⟨arg, more, rfl⟩ := exists_of_takes h
      simp
    · exact cluster_takes _ h
  · exact cluster_takes _ h

theorem forall_after {r : Scanned} {events : List OptionEvent} {options : List Bytes}
    {P : OptionEvent → Prop} (h : ∀ e ∈ (r.after events options).events, P e) :
    (∀ e ∈ events, P e) ∧ ∀ e ∈ r.events, P e :=
  List.forall_mem_append.mp h

/-- The elements that are no options stay apart. -/
theorem scan_nonoptions (h : ∀ e ∈ rest, nonoption e = true) :
    scan call .permute rest = ⟨[], [], rest⟩ := by
  induction rest with
  | nil => rfl
  | cons element rest ih =>
    rw [scan_nonoption (h element (List.mem_cons_self ..)),
      ih fun e he => h e (List.mem_cons_of_mem _ he)]

/-- The array as `getopt` leaves it is read like the command line was, if no option lacks
its argument; other non-options may stand in front of those it was given. -/
theorem scan_reordered (hmissing : ∀ e ∈ (scan call .permute rest).events,
      e.1 ≠ call.missingArgument) {pre : List Bytes} (hpre : ∀ e ∈ pre, nonoption e = true) :
    scan call .permute ((scan call .permute rest).options ++
        (pre ++ (scan call .permute rest).nonoptions)) =
      ⟨(scan call .permute rest).events, (scan call .permute rest).options,
        pre ++ (scan call .permute rest).nonoptions⟩ := by
  induction hn : rest.length using Nat.strong_induction_on generalizing rest pre with
  | _ n ih =>
    cases rest with
    | nil => simpa [scan] using scan_nonoptions hpre
    | cons element behind =>
      rw [List.length_cons] at hn
      by_cases hdash : element = ascii "--"
      · subst hdash
        rw [scan_end]
        simp only [List.cons_append, List.nil_append, scan_end]
      · cases hnon : nonoption element with
        | true =>
          -- it comes to stand in front of the non-options behind it
          rw [scan_nonoption hnon] at hmissing ⊢
          have hmore : ∀ e ∈ pre ++ [element], nonoption e = true := by
            intro e he
            rcases List.mem_append.mp he with he | he
            · exact hpre e he
            · rwa [List.mem_singleton.mp he]
          have hrec := ih behind.length (by omega) hmissing hmore rfl
          simpa using hrec
        | false =>
          rw [scan_element hdash hnon] at hmissing ⊢
          rcases hevents : elementEvents call element behind with ⟨events, takes⟩
          rw [hevents] at hmissing
          cases takes with
          | false =>
            have hplain : ∀ behind : List Bytes, behindElement call .permute element behind
                (events, false) = (scan call .permute behind).after events [element] := by
              intro behind
              cases behind <;> rfl
            rw [hplain] at hmissing ⊢
            obtain ⟨hown, hlater⟩ := forall_after hmissing
            have hsame : ∀ after : List Bytes,
                elementEvents call element after = (events, false) :=
              fun _ => elementEvents_eq hevents hown (by simp)
            have hrec := ih behind.length (by omega) hlater hpre rfl
            simp only [Scanned.after, List.cons_append, List.nil_append] at hrec ⊢
            rw [scan_element hdash hnon, hsame, hplain, hrec]
            rfl
          | true =>
            obtain ⟨arg, more, rfl⟩ := List.exists_cons_of_ne_nil
              (elementEvents_takes (by rw [hevents]))
            rw [List.length_cons] at hn
            replace hmissing : ∀ e ∈ ((scan call .permute more).after events
                [element, arg]).events, e.1 ≠ call.missingArgument := hmissing
            obtain ⟨hown, hlater⟩ := forall_after hmissing
            have hsame : ∀ after : List Bytes,
                elementEvents call element (arg :: after) = (events, true) :=
              fun _ => elementEvents_eq hevents hown fun _ => rfl
            have hrec := ih more.length (by omega) hlater hpre rfl
            simp only [behindElement, Scanned.after, List.cons_append, List.nil_append]
              at hrec ⊢
            rw [scan_element hdash hnon, hsame, behindElement, hrec]
            rfl

theorem settle_ne {settings settings' : Settings}
    (h : settle prog settings events = .inr settings') :
    ∀ e ∈ events, e.1 ≠ 63 := by
  induction events generalizing settings with
  | nil => simp
  | cons e events ih =>
    obtain ⟨c, optarg⟩ := e
    rw [settle] at h
    rw [List.forall_mem_cons]
    cases htake : takeOption prog settings c optarg with
    | inl exit =>
      rw [htake] at h
      simp at h
    | inr settings₁ =>
      rw [htake] at h
      refine ⟨?_, ih h⟩
      rintro rfl
      simp [takeOption] at htake

theorem settings_eq_inr {r : Scanned} {settings : Settings} {port : Bytes}
    (h : r.settings prog = .inr (settings, port)) :
    settle prog {} r.events = .inr settings ∧ r.nonoptions = [port] := by
  unfold Scanned.settings at h
  cases hsettle : settle prog {} r.events with
  | inl exit =>
    rw [hsettle] at h
    simp at h
  | inr settings₁ =>
    rw [hsettle] at h
    rcases hports : r.nonoptions with _ | ⟨first, _ | ⟨second, more⟩⟩ <;> rw [hports] at h
    · simp at h
    · simpa using h
    · simp at h

/-- A command line with a port is accepted in the order as well that `getopt` leaves it
in: the options with their arguments first, then the port. -/
theorem mainOptions_permuted (prog : Bytes) (rest : List Bytes) (settings : Settings)
    (port : Bytes) (h : mainOptions false prog rest = some (.inr (settings, port))) :
    mainOptions false prog
        ((scan ((mainArgs false).toCall prog) .permute rest).options ++ [port]) =
      some (.inr (settings, port)) := by
  rw [mainOptions_eq] at h ⊢
  obtain ⟨hsettle, hport⟩ := settings_eq_inr (Option.some.inj h)
  have hmissing : ∀ e ∈ (scan ((mainArgs false).toCall prog) .permute rest).events,
      e.1 ≠ ((mainArgs false).toCall prog).missingArgument := settle_ne hsettle
  have hnone : ∀ e ∈ ([] : List Bytes), nonoption e = true := by simp
  have hagain := scan_reordered hmissing hnone
  rw [List.nil_append, show (scan ((mainArgs false).toCall prog) .permute rest).nonoptions =
    [port] from hport] at hagain
  rw [show (mainArgs false).argOrdering = .permute from rfl, hagain, Scanned.settings]
  simp only [show settle prog {} (scan ((mainArgs false).toCall prog) .permute rest).events =
    .inr settings from hsettle]

theorem mainOptions_permuted_portFirst :
    mainOptions false (ascii "rblpolicyd") [ascii "-vc", ascii "x", ascii "10025"] =
      some (.inr ({ verbose := 1, cfgpath := ascii "x" }, ascii "10025")) :=
  mainOptions_permuted (ascii "rblpolicyd") [ascii "10025", ascii "-vc", ascii "x"]
    { verbose := 1, cfgpath := ascii "x" } (ascii "10025") (by decide +kernel)

/-! ### The long options -/

/-- The scan of a command line comes to the given elements, between two elements. -/
inductive ScanReaches (call : GetoptCall) (ordering : ArgOrdering) :
    List Bytes → List Bytes → Prop
  | here (rest : List Bytes) : ScanReaches call ordering rest rest
  | nonoption {element : Bytes} {behind tail : List Bytes} : nonoption element = true →
    ordering ≠ .requireOrder → ScanReaches call ordering behind tail →
      ScanReaches call ordering (element :: behind) tail
  | option {element : Bytes} {behind tail : List Bytes} : element ≠ ascii "--" →
    nonoption element = false → (elementEvents call element behind).2 = false →
      ScanReaches call ordering behind tail →
        ScanReaches call ordering (element :: behind) tail
  | argument {element arg : Bytes} {behind tail : List Bytes} : element ≠ ascii "--" →
    nonoption element = false → (elementEvents call element (arg :: behind)).2 = true →
      ScanReaches call ordering behind tail →
        ScanReaches call ordering (element :: arg :: behind) tail

/-- What is read from there is among what is read of the whole. -/
theorem scan_of_reaches {tail : List Bytes} (h : ScanReaches call ordering rest tail) :
    (scan call ordering tail).events ⊆ (scan call ordering rest).events := by
  induction h with
  | here rest => exact List.Subset.refl _
  | @nonoption element behind tail hnon hord _ ih =>
    refine List.Subset.trans ih ?_
    rw [scan.eq_def call ordering (element :: behind)]
    simp only [if_neg (ne_dash_of_nonoption hnon), hnon, if_true]
    cases ordering with
    | requireOrder => exact absurd rfl hord
    | permute => exact List.Subset.refl _
    | returnInOrder => exact List.subset_append_right _ _
  | @option element behind tail hdash hnon htakes _ ih =>
    refine List.Subset.trans ih ?_
    rw [scan_element hdash hnon]
    rcases hevents : elementEvents call element behind with ⟨events, takes⟩
    obtain rfl : takes = false := by rw [← htakes, hevents]
    cases behind <;> exact List.subset_append_right _ _
  | @argument element arg behind tail hdash hnon htakes _ ih =>
    refine List.Subset.trans ih ?_
    rw [scan_element hdash hnon]
    rcases hevents : elementEvents call element (arg :: behind) with ⟨events, takes⟩
    obtain rfl : takes = true := by rw [← htakes, hevents]
    exact List.subset_append_right _ _

/-- Every name in the table starts with two dashes. -/
theorem longOptions_dashes : ∀ p ∈ longOptions, ascii "--" <+: p.name := by
  decide +kernel

/-- A text that does not start with two dashes is no name of the table, and begins either
all of them or none. -/
theorem lookupLong_longOptions {name : Bytes} (h : ¬ ascii "--" <+: name) :
    lookupLong name longOptions = none := by
  have hexact : longOptions.find? (·.name = name) = none := by
    rw [List.find?_eq_none]
    intro p hp hname
    rw [decide_eq_true_iff] at hname
    exact h (hname ▸ longOptions_dashes p hp)
  rw [lookupLong, hexact]
  by_cases hshort : name <+: ascii "--"
  · -- nothing or a single dash: every option is a candidate
    have hall : longOptions.filter (name.isPrefixOf ·.name) = longOptions := by
      rw [List.filter_eq_self]
      intro p hp
      exact List.isPrefixOf_iff_prefix.mpr (hshort.trans (longOptions_dashes p hp))
    rw [hall]
    rfl
  · have hnone : longOptions.filter (name.isPrefixOf ·.name) = [] := by
      rw [List.filter_eq_nil_iff]
      intro p hp hbegins
      rcases List.prefix_or_prefix_of_prefix (List.isPrefixOf_iff_prefix.mp hbegins)
        (longOptions_dashes p hp) with hname | hname
      · exact hshort hname
      · exact h hname
    rw [hnone]

theorem elementEvents_long {longopts : List LongOption} (hlong : call.longopts = some longopts)
    {name : Bytes} (hname : lookupLong (name.takeWhile (· ≠ 61)) longopts = none)
    (behind : List Bytes) :
    elementEvents call (ascii "--" ++ name) behind = ([(63, none)], false) := by
  have hevent : longEvent call longopts name behind = ((63, none), false) := by
    simp only [longEvent, hname]
  unfold elementEvents
  rw [hlong]
  simp only
  rw [if_pos (by rfl), show (ascii "--" ++ name).drop 2 = name from rfl, hevent]

/-- No command line on which an option is spelled `--name` starts the daemon, unless the
name itself starts with two more dashes. -/
theorem documented_long_refused (posixlyCorrect : Bool) (prog : Bytes) (rest behind : List Bytes)
    (name : Bytes) (hname : name ≠ [] ∧ ¬ ascii "--" <+: name)
    (h : ScanReaches ((mainArgs posixlyCorrect).toCall prog) (mainArgs posixlyCorrect).argOrdering
      rest ((ascii "--" ++ name) :: behind)) :
    ∃ exit, mainOptions posixlyCorrect prog rest = some (.inl exit) := by
  have hdash : ascii "--" ++ name ≠ ascii "--" := by
    intro heq
    exact hname.1 (List.append_right_eq_self.mp heq)
  have hnon : nonoption (ascii "--" ++ name) = false := by
    rcases name with _ | ⟨b, name⟩
    · exact absurd rfl hname.1
    · rfl
  have hlookup : lookupLong (name.takeWhile (· ≠ 61)) longOptions = none := by
    refine lookupLong_longOptions fun hdashes => hname.2 (hdashes.trans ?_)
    exact List.takeWhile_prefix _
  -- the element is read as an unknown option
  have hevents : elementEvents ((mainArgs posixlyCorrect).toCall prog) (ascii "--" ++ name) behind =
      ([(63, none)], false) := elementEvents_long rfl hlookup behind
  have hread : ((63, none) : OptionEvent) ∈ (scan ((mainArgs posixlyCorrect).toCall prog)
      (mainArgs posixlyCorrect).argOrdering rest).events := by
    apply scan_of_reaches h
    rw [scan_element hdash hnon, hevents]
    cases behind <;> exact List.mem_append_left _ (List.mem_singleton_self _)
  rw [mainOptions_eq]
  cases hsettings : (scan ((mainArgs posixlyCorrect).toCall prog)
      (mainArgs posixlyCorrect).argOrdering rest).settings prog with
  | inl exit => exact ⟨exit, rfl⟩
  | inr accepted =>
    obtain ⟨hsettle, -⟩ := settings_eq_inr hsettings
    exact absurd rfl (settle_ne hsettle _ hread)

theorem documented_long_refused_verbose :
    ∃ exit, mainOptions false (ascii "rblpolicyd")
      [ascii "10025", ascii "-c", ascii "x", ascii "--verbose"] = some (.inl exit) := by
  refine documented_long_refused false (ascii "rblpolicyd")
    [ascii "10025", ascii "-c", ascii "x", ascii "--verbose"] [] (ascii "verbose")
    (by decide +kernel) ?_
  apply ScanReaches.nonoption
  · decide +kernel
  · decide +kernel
  · apply ScanReaches.argument
    · decide +kernel
    · decide +kernel
    · decide +kernel
    · exact ScanReaches.here _

end Rblpolicyd
