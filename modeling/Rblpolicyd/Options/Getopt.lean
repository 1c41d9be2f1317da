import Rblpolicyd.Libc.Bytes
import Rblpolicyd.Libc.Rotation

/-!
# `getopt`: the options of a command line

`_getopt_internal` as the code has it: the static variables between two calls, the
in-place permutation of `argv`, the element `--`, the three ways to treat elements
that are no options, clusters of short options, and long options with their
abbreviations. A `char *` into an element of `argv` is the text from there on, and a
`char **` into `argv` the elements from there on.

## Main definitions

* `GetoptState` — the variables of the file, and the array it works on
* `exchange`, `getoptInitialize` — the helpers of the scan
* `matchLong` — the search loop over the table of long options
* `decodeLong`, `decodeShort` — what becomes of an option element
* `advance` — how the next option element is found
* `getoptInternal` — one call
-/

namespace Rblpolicyd

open Libc

/-- How to deal with the elements that are no options. -/
inductive ArgOrdering
  | requireOrder
  | permute
  | returnInOrder
  deriving DecidableEq

/-- `struct option`; a `flag` names the variable it points to. -/
structure LongOption where
  name : Bytes
  hasArg : Int
  flag : Option Nat
  val : Int
  deriving DecidableEq

/-- What the caller passes beside `argv`, `opterr`, and whether `POSIXLY_CORRECT` is set. -/
structure GetoptArgs where
  optstring : Bytes
  longopts : Option (List LongOption)
  longOnly : Bool
  opterr : Bool := true
  posixlyCorrect : Bool := false

/-- The variables that live between two calls, and what was written to standard error. -/
structure GetoptState where
  argv : List Bytes
  optarg : Option Bytes := none
  optind : Nat := 1
  initialized : Bool := false
  nextchar : Option Bytes := none
  optopt : Int := 63
  ordering : ArgOrdering := .requireOrder
  posixlyCorrect : Bool := false
  firstNonopt : Nat := 0
  lastNonopt : Nat := 0
  longind : Nat := 0
  flags : List (Nat × Int) := []
  stderr : List Bytes := []
  deriving DecidableEq

/-- A `char` is signed. -/
def charInt (c : UInt8) : Int := if c.toNat < 128 then c.toNat else c.toNat - 256

/-- `NONOPTION_P`: an element without option syntax. -/
def nonoption (element : Bytes) : Bool := element[0]? != some 45 || element.length == 1

/-- The non-options skipped so far and the options behind them change places. -/
def exchange (s : GetoptState) : GetoptState :=
  { s with
    argv := rotateBlocks (s.optind - s.firstNonopt) s.argv s.firstNonopt s.lastNonopt s.optind
    firstNonopt := s.firstNonopt + (s.optind - s.lastNonopt)
    lastNonopt := s.optind }

/-- The first call; the option characters start behind a mark for the ordering. -/
def getoptInitialize (args : GetoptArgs) (s : GetoptState) : Bytes × GetoptState :=
  let s := { s with
    firstNonopt := s.optind
    lastNonopt := s.optind
    nextchar := none
    posixlyCorrect := args.posixlyCorrect }
  match args.optstring with
  | 45 :: optstring => (optstring, { s with ordering := .returnInOrder })
  | 43 :: optstring => (optstring, { s with ordering := .requireOrder })
  | optstring =>
    (optstring, { s with ordering := if args.posixlyCorrect then .requireOrder else .permute })

/-! ### Decoding an option element -/

/-- What decoding refers to beside the element: the arguments of the call, as they are
after the first call's changes, and the name of the program. -/
structure GetoptCall where
  optstring : Bytes
  longopts : Option (List LongOption)
  longOnly : Bool
  printErrors : Bool
  posixlyCorrect : Bool
  prog : Bytes

/-- What decoding does: `passed` counts the increments of `optind`. -/
structure Decoded where
  code : Int
  optarg : Option Bytes := none
  optopt : Option Int := none
  passed : Nat
  nextchar : Option Bytes
  longind : Option Nat := none
  flag : Option (Nat × Int) := none
  stderr : List Bytes := []
  deriving DecidableEq

namespace GetoptCall

variable (call : GetoptCall)

/-- An error message, which starts with the program's name. -/
def complain (text : Bytes) : List Bytes :=
  if call.printErrors then [call.prog ++ ascii ": " ++ text ++ ascii "\n"] else []

/-- What is returned for a missing argument. -/
def missingArgument : Int := if call.optstring[0]? = some 58 then 58 else 63

end GetoptCall

/-- The variables of the search for a long option; `pfound` is with its index. -/
structure LongMatch where
  pfound : Option (Nat × LongOption) := none
  exact : Bool := false
  ambig : Bool := false

/-- Test all long options for either exact match or abbreviated matches. -/
def matchLong (name : Bytes) : Nat → List LongOption → LongMatch → LongMatch
  | _, [], m => m
  | i, p :: longopts, m =>
    if name.isPrefixOf p.name then
      if name.length = p.name.length then { m with pfound := some (i, p), exact := true }
      else if m.pfound.isNone then
        matchLong name (i + 1) longopts { m with pfound := some (i, p) }
      else matchLong name (i + 1) longopts { m with ambig := true }
    else matchLong name (i + 1) longopts m

/-- A long option was found: its `flag` is set, or its `val` returned. -/
def acceptLong (i : Nat) (p : LongOption) (optarg : Option Bytes) (passed : Nat) : Decoded :=
  { code := if p.flag.isSome then 0 else p.val
    optarg := optarg
    passed := passed
    nextchar := some []
    longind := some i
    flag := p.flag.map fun flag => (flag, p.val) }

/-- An element refused as a long option: `?` with a message, and the rest of it is left. -/
def rejectLong (call : GetoptCall) (code optopt : Int) (text : Bytes) : Decoded :=
  { code := code
    optopt := some optopt
    passed := 1
    nextchar := some []
    stderr := call.complain text }

/-- How the messages write the punctuation of a long option. -/
def longMark (element : Bytes) : Bytes :=
  if element[1]? = some 45 then ascii "--" else element.take 1

/-- The long option `p` was found for the element; `nameend` is the text behind its name. -/
def foundLong (call : GetoptCall) (i : Nat) (p : LongOption) (element nameend : Bytes)
    (behind : List Bytes) : Decoded :=
  match nameend, behind with
  | _ :: text, _ =>
    if p.hasArg ≠ 0 then acceptLong i p (some text) 1
    else rejectLong call 63 p.val
      (ascii "option `" ++ longMark element ++ p.name ++ ascii "' doesn't allow an argument")
  | [], behind =>
    if p.hasArg = 1 then
      match behind with
      | text :: _ => acceptLong i p (some text) 2
      | [] => rejectLong call call.missingArgument p.val
          (ascii "option `" ++ element ++ ascii "' requires an argument")
    else acceptLong i p none 1

/-- The element taken as a long option; `none` where it goes on as a short one. -/
def decodeLong (call : GetoptCall) (longopts : List LongOption) (element nextchar : Bytes)
    (behind : List Bytes) : Option Decoded :=
  let name := nextchar.takeWhile (· ≠ 61)
  let nameend := nextchar.dropWhile (· ≠ 61)
  let m := matchLong name 0 longopts {}
  if m.ambig && !m.exact then
    some (rejectLong call 63 0 (ascii "option `" ++ element ++ ascii "' is ambiguous"))
  else
    match m.pfound with
    | some (i, p) => some (foundLong call i p element nameend behind)
    | none =>
      -- only `getopt_long_only` may still find a short option here
      if !call.longOnly || element[1]? = some 45 ||
          (strchr call.optstring (nextchar.headD nul)).isNone then
        some (rejectLong call 63 0
          (ascii "unrecognized option `" ++ longMark element ++ nextchar ++ ascii "'"))
      else none

/-- `-W foo` is the long option `--foo`; `arg` is the text `foo`, and `passed` the
elements that are used up with it. -/
def decodeW (call : GetoptCall) (longopts : List LongOption) (arg : Bytes) (passed : Nat)
    (element : Bytes) (behind : List Bytes) : Decoded :=
  let name := arg.takeWhile (· ≠ 61)
  let nameend := arg.dropWhile (· ≠ 61)
  let m := matchLong name 0 longopts {}
  if m.ambig && !m.exact then
    -- the element named here is the one behind the argument, and it is passed unread
    { code := 63, optarg := some arg, passed := passed + 1, nextchar := some []
      stderr := call.complain (ascii "option `-W " ++ (behind[0]?.getD (ascii "(null)")) ++
        ascii "' is ambiguous") }
  else
    match m.pfound with
    | some (i, p) =>
      match nameend with
      | _ :: text =>
        if p.hasArg ≠ 0 then acceptLong i p (some text) passed
        else
          { code := 63, optarg := some arg, passed := passed, nextchar := some []
            stderr := call.complain
              (ascii "option `-W " ++ p.name ++ ascii "' doesn't allow an argument") }
      | [] =>
        if p.hasArg = 1 then
          match behind with
          | text :: _ => acceptLong i p (some text) (passed + 1)
          | [] =>
            { code := call.missingArgument, optarg := some arg, passed := passed
              nextchar := some []
              stderr := call.complain
                (ascii "option `" ++ element ++ ascii "' requires an argument") }
        else acceptLong i p (some arg) passed
    | none => { code := 87, optarg := some arg, passed := passed, nextchar := none }

/-- What the entry of a character in the option string asks for; `long` is `W;`. -/
inductive ArgKind
  | unknown
  | plain
  | optional
  | required
  | long
  deriving DecidableEq

/-- The entry of `c`: `temp`, and the colons behind it. -/
def argKind (optstring : Bytes) (c : UInt8) : ArgKind :=
  if c = 58 then .unknown
  else
    match strchr optstring c with
    | none => .unknown
    | some (87 :: 59 :: _) => .long
    | some (_ :: 58 :: 58 :: _) => .optional
    | some (_ :: 58 :: _) => .required
    | some _ => .plain

/-- An option that requires an argument stands at the end of the arguments. -/
def decodeMissing (call : GetoptCall) (c : UInt8) (nextchar : Option Bytes) : Decoded :=
  { code := call.missingArgument
    optopt := some (charInt c)
    passed := 1
    nextchar := nextchar
    stderr := call.complain (ascii "option requires an argument -- " ++ [c]) }

/-- The next short option-character `c`, with the text `cs` behind it in its element;
`optind` is incremented with the last character. -/
def decodeShort (call : GetoptCall) (element : Bytes) (c : UInt8) (cs : Bytes)
    (behind : List Bytes) : Decoded :=
  match argKind call.optstring c, cs, behind with
  | .unknown, cs, _ =>
    let what := if call.posixlyCorrect then ascii "illegal" else ascii "invalid"
    { code := 63
      optopt := some (charInt c)
      passed := if cs = [] then 1 else 0
      nextchar := some cs
      stderr := call.complain (what ++ ascii " option -- " ++ [c]) }
  | .plain, cs, _ =>
    { code := charInt c, passed := if cs = [] then 1 else 0, nextchar := some cs }
  | .optional, cs, _ =>
    { code := charInt c, optarg := if cs = [] then none else some cs, passed := 1
      nextchar := none }
  | .required, [], [] => decodeMissing call c none
  | .required, [], arg :: _ =>
    { code := charInt c, optarg := some arg, passed := 2, nextchar := none }
  | .required, cs, _ => { code := charInt c, optarg := some cs, passed := 1, nextchar := none }
  | .long, [], [] => decodeMissing call c (some [])
  | .long, [], arg :: behind => decodeW call (call.longopts.getD []) arg 2 arg behind
  | .long, cs, behind => decodeW call (call.longopts.getD []) cs 1 element behind

/-- Decode the current option element from `nextchar` on. -/
def decode (call : GetoptCall) (element : Bytes) (c : UInt8) (cs : Bytes)
    (behind : List Bytes) : Decoded :=
  let long := call.longopts.bind fun longopts =>
    if element[1]? = some 45 ∨ call.longOnly = true ∧
        (element[2]?.isSome ∨ strchr call.optstring (element[1]?.getD nul) = none) then
      decodeLong call longopts element (c :: cs) behind
    else none
  long.getD (decodeShort call element c cs behind)

/-- The effect of decoding on the variables. -/
def Decoded.apply (d : Decoded) (s : GetoptState) : Int × GetoptState :=
  (d.code, { s with
    optarg := d.optarg
    optopt := d.optopt.getD s.optopt
    optind := s.optind + d.passed
    nextchar := d.nextchar
    longind := d.longind.getD s.longind
    flags := s.flags ++ d.flag.toList
    stderr := s.stderr ++ d.stderr })

/-! ### Finding the next option element -/

/-- Give the range of non-options rational values if `optind` has been moved back. -/
def clampNonopts (s : GetoptState) : GetoptState :=
  let s := if s.optind < s.lastNonopt then { s with lastNonopt := s.optind } else s
  if s.optind < s.firstNonopt then { s with firstNonopt := s.optind } else s

/-- Under `PERMUTE`: bring the options just processed in front of the non-options before
them, and skip any additional non-options. -/
def skipNonopts (s : GetoptState) : GetoptState :=
  let s :=
    if s.firstNonopt ≠ s.lastNonopt ∧ s.lastNonopt ≠ s.optind then exchange s
    else if s.lastNonopt ≠ s.optind then { s with firstNonopt := s.optind }
    else s
  let optind := s.optind + ((s.argv.drop s.optind).takeWhile nonoption).length
  { s with optind := optind, lastNonopt := optind }

/-- The element `--`: skip it like a null option, then everything else like a non-option. -/
def endOptions (s : GetoptState) : GetoptState :=
  let s := { s with optind := s.optind + 1 }
  let s :=
    if s.firstNonopt ≠ s.lastNonopt ∧ s.lastNonopt ≠ s.optind then exchange s
    else if s.firstNonopt = s.lastNonopt then { s with firstNonopt := s.optind }
    else s
  { s with lastNonopt := s.argv.length, optind := s.argv.length }

/-- The element at `optind`: the end of the scan, a non-option, or an option element, whose
initial punctuation is skipped. A code where the call ends here. -/
def takeElement (args : GetoptArgs) (s : GetoptState) : Option Int × GetoptState :=
  let s :=
    if s.optind ≠ s.argv.length ∧ s.argv[s.optind]?.getD [] = ascii "--" then endOptions s
    else s
  if s.optind = s.argv.length then
    (some (-1),
      if s.firstNonopt ≠ s.lastNonopt then { s with optind := s.firstNonopt } else s)
  else
    let element := s.argv[s.optind]?.getD []
    if nonoption element then
      if s.ordering = .requireOrder then (some (-1), s)
      else (some 1, { s with optarg := some element, optind := s.optind + 1 })
    else
      let marks := if args.longopts.isSome ∧ element[1]? = some 45 then 2 else 1
      (none, { s with nextchar := some (element.drop marks) })

/-- Advance to the next element. -/
def advance (args : GetoptArgs) (s : GetoptState) : Option Int × GetoptState :=
  let s := clampNonopts s
  takeElement args (if s.ordering = .permute then skipNonopts s else s)

/-- A call behind the initialisation, with the option characters as they are then. -/
def getoptScan (args : GetoptArgs) (optstring : Bytes) (s : GetoptState) : Int × GetoptState :=
  let (returned, s) := if s.nextchar.getD [] = [] then advance args s else (none, s)
  match returned, s.nextchar with
  | some code, _ => (code, s)
  | none, some (c :: cs) =>
    let call : GetoptCall :=
      { optstring := optstring
        longopts := args.longopts
        longOnly := args.longOnly
        printErrors := args.opterr && args.optstring[0]? != some 58
        posixlyCorrect := s.posixlyCorrect
        prog := s.argv[0]?.getD [] }
    (decode call (s.argv[s.optind]?.getD []) c cs (s.argv.drop (s.optind + 1))).apply s
  -- an option element has text behind its punctuation
  | none, _ => (63, s)

/-- One call of `_getopt_internal`: the value returned and the variables after it. -/
def getoptInternal (args : GetoptArgs) (s : GetoptState) : Int × GetoptState :=
  let s := { s with optarg := none }
  if s.optind = 0 ∨ s.initialized = false then
    let s := if s.optind = 0 then { s with optind := 1 } else s
    let (optstring, s) := getoptInitialize args s
    getoptScan args optstring { s with initialized := true }
  else getoptScan args args.optstring s

/-- `getopt`. -/
def getopt (optstring : Bytes) (s : GetoptState) : Int × GetoptState :=
  getoptInternal { optstring := optstring, longopts := none, longOnly := false } s

end Rblpolicyd
