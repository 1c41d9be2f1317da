import Rblpolicyd.Libc.Numerals

/-!
# The formatter of the replacement `snprintf`

Where the system has no `snprintf`, the repository brings its own: `dopr` reads the format
a character at a time through a small state machine, and hands every character of its
output to `dopr_outch`, which stores it while there is room. Behind the output comes a NUL,
at the end of the buffer if need be. The text of a floating point number is a parameter:
whatever it is, it goes through `dopr_outch` as well.

## Main definitions

* `DoprState`, `step`, `loop` — the state machine, and its loop
* `fmtstr`, `fmtint` — what is handed to `dopr_outch` for a string and for an integer
* `dopr`, `vsnprintf` — a call: the stores it makes and the text it leaves
-/

namespace Rblpolicyd.Snprintf

open Libc

/-- The states of reading a format. -/
inductive DpState
  | default
  | flags
  | min
  | dot
  | max
  | mod
  | conv
  | done
  deriving DecidableEq

/-- The conversion flags: the size of the argument. -/
inductive DpLength
  | none
  | short
  | long
  | ldouble
  | longLong
  deriving DecidableEq

/-- The format flags. -/
structure DpFlags where
  minus : Bool := false
  plus : Bool := false
  space : Bool := false
  num : Bool := false
  zero : Bool := false
  up : Bool := false
  unsigned : Bool := false
  deriving DecidableEq

/-- An argument: an integer of any size, a string or `NULL`, the address of a `void *`, the
variable that a `%n` stores to, a floating point number. -/
inductive VaArg
  | int (n : Int)
  | string (s : Option Bytes)
  | pointer (address : Int)
  | variable (i : Nat)
  | double (i : Nat)
  deriving DecidableEq

/-- The variables of `dopr`: `format` is the array from the pointer on, `out` the buffer up
to `currlen`. The last two say that the format was read behind its array, and that an
argument was missing or of another type. `min` and `max` are as in the source while they fit
an `int`: more digits than that are undefined there. -/
structure DoprState where
  format : Bytes
  ch : UInt8
  state : DpState := .default
  min : Int := 0
  max : Int := -1
  flags : DpFlags := {}
  cflags : DpLength := .none
  args : List VaArg
  out : Bytes := []
  counts : List (Nat × Nat) := []
  overread : Bool := false
  badArg : Bool := false
  deriving DecidableEq

/-- `dopr_outch`: a character is stored while there is room. -/
def doprOutch (maxlen : Nat) (out : Bytes) (c : UInt8) : Bytes :=
  if out.length < maxlen then out ++ [c] else out

/-- A text goes through `dopr_outch`, character by character. -/
def outchs (maxlen : Nat) (out text : Bytes) : Bytes := text.foldl (doprOutch maxlen) out

/-- `ch = *format++`. -/
def DoprState.next (st : DoprState) : DoprState :=
  match st.format with
  | [] => { st with state := .done, overread := true }
  | ch :: format => { st with ch := ch, format := format }

/-- `fmtstr`: what is handed to `dopr_outch`; `cnt < max` stops every loop. -/
def fmtstr (value : Option Bytes) (flags : DpFlags) (min max : Int) : Bytes :=
  let value := value.getD (ascii "<NULL>")
  let padlen := Max.max 0 (min - value.length)
  let blanks := List.replicate padlen.toNat 32
  (if flags.minus then value ++ blanks else blanks ++ value).take max.toNat

/-- A digit of `convert`: the character of the literal at the index. Behind its sixteen digits is
its NUL; no base that `dopr` passes gets so far. -/
def digitChar (caps : Bool) (d : Nat) : UInt8 :=
  ((if caps then ascii "0123456789ABCDEF" else ascii "0123456789abcdef")[d]?).getD nul

/-- The loop that fills `convert`, from the lowest digit on; there is room for `places`. -/
def convertLoop (caps : Bool) (base : Nat) : Nat → Nat → Bytes
  | 0, _ => []
  | places + 1, uvalue =>
    digitChar caps (uvalue % base) ::
      if uvalue / base = 0 then [] else convertLoop caps base places (uvalue / base)

/-- The digits in `convert[20]`: the last place is for the NUL. -/
def convert (caps : Bool) (base uvalue : Nat) : Bytes :=
  let digits := convertLoop caps base 20 uvalue
  if digits.length = 20 then digits.take 19 else digits

/-- The sign of a number, or the blank in its place. -/
def signvalue (value : Int) (flags : DpFlags) : Bytes :=
  if flags.unsigned then []
  else if value < 0 then [45]
  else if flags.plus then [43]
  else if flags.space then [32]
  else []

/-- `fmtint`: what is handed to `dopr_outch`. -/
def fmtint (value : Int) (base : Nat) (min max : Int) (flags : DpFlags) : Bytes :=
  let max := if max < 0 then 0 else max
  let uvalue := ((if !flags.unsigned && value < 0 then -value else value) % 2 ^ 64).toNat
  let sign := signvalue value flags
  let digits := convert flags.up base uvalue
  let zpadlen := Max.max 0 (max - digits.length)
  let spadlen := Max.max 0 (min - Max.max max digits.length - sign.length)
  let zeros := if flags.zero then Max.max zpadlen spadlen else zpadlen
  let spaces := if flags.zero then 0 else spadlen
  let blanks := List.replicate spaces.toNat 32
  (if flags.minus then [] else blanks) ++ sign ++ List.replicate zeros.toNat 48 ++
    digits.reverse ++ (if flags.minus then blanks else [])

section Machine

variable (maxlen : Nat) (fmtfp : Nat → Int → Int → DpFlags → Bytes)

/-- A text is handed to `dopr_outch`. -/
def DoprState.emit (st : DoprState) (text : Bytes) : DoprState :=
  { st with out := outchs maxlen st.out text }

/-- An integer conversion; `value` is what becomes of the argument in a `long`. -/
def DoprState.integer (st : DoprState) (value : Int → Int) (base : Nat) (flags : DpFlags) :
    DoprState :=
  match st.args with
  | .int n :: args =>
    { st with args := args }.emit maxlen (fmtint (value n) base st.min st.max flags)
  | _ => { st with badArg := true }

/-- The value of an unsigned conversion. -/
def DoprState.unsignedValue (st : DoprState) (n : Int) : Int :=
  if st.cflags = .long ∨ st.cflags = .longLong then n % 2 ^ 64 else n % 2 ^ 32

/-- A floating point argument is taken; only `%f` prints it. -/
def DoprState.floating (st : DoprState) (prints : Bool) : DoprState :=
  match st.args with
  | .double i :: args =>
    let st := { st with args := args }
    if prints then st.emit maxlen (fmtfp i st.min st.max st.flags) else st
  | _ => { st with badArg := true }

/-- What the last character of a directive asks for. -/
inductive ConvKind
  | signed
  | unsigned (base : Nat) (up : Bool)
  | floating (prints : Bool)
  | char
  | string
  | pointer
  | count
  | percent
  | skip
  | unknown
  deriving DecidableEq

/-- The `switch` on the last character; a `w` is not supported yet, and skipped. -/
def convKind (ch : UInt8) : ConvKind :=
  match ch with
  | 100 | 105 => .signed
  | 111 => .unsigned 8 false
  | 117 => .unsigned 10 false
  | 88 => .unsigned 16 true
  | 120 => .unsigned 16 false
  | 102 => .floating true
  | 69 | 101 | 71 | 103 => .floating false
  | 99 => .char
  | 115 => .string
  | 112 => .pointer
  | 110 => .count
  | 37 => .percent
  | 119 => .skip
  | _ => .unknown

/-- The conversion itself, up to the last character of the directive. -/
def DoprState.convert (st : DoprState) : DoprState :=
  match convKind st.ch, st.args with
  | .signed, _ => st.integer maxlen id 10 st.flags
  | .unsigned base up, _ =>
    st.integer maxlen st.unsignedValue base
      { st.flags with up := st.flags.up || up, unsigned := true }
  | .floating prints, _ => st.floating maxlen fmtfp prints
  | .char, .int n :: args =>
    { st with args := args }.emit maxlen [UInt8.ofNat (n % 256).toNat]
  | .string, .string value :: args =>
    let max := if st.max < 0 then toInt32 maxlen else st.max
    { st with args := args }.emit maxlen (fmtstr value st.flags st.min max)
  | .pointer, .pointer address :: args =>
    { st with args := args }.emit maxlen (fmtint address 16 st.min st.max st.flags)
  | .count, .variable i :: args =>
    { st with args := args, counts := st.counts ++ [(i, st.out.length)] }
  | .percent, _ => st.emit maxlen [st.ch]
  | .skip, _ => st.next
  | .unknown, _ => st
  | .char, _ | .string, _ | .pointer, _ | .count, _ => { st with badArg := true }

/-- The flag that a character stands for. -/
def setFlag (ch : UInt8) (flags : DpFlags) : Option DpFlags :=
  if ch = 45 then some { flags with minus := true }
  else if ch = 43 then some { flags with plus := true }
  else if ch = 32 then some { flags with space := true }
  else if ch = 35 then some { flags with num := true }
  else if ch = 48 then some { flags with zero := true }
  else none

/-- `min` or `max` taken from an argument for a `*`. -/
def DoprState.star (st : DoprState) (set : Int → DoprState → DoprState) : DoprState :=
  match st.args with
  | .int n :: args => set n { st with args := args }
  | _ => { st with badArg := true }

/-- One turn of the loop's `switch`. -/
def DoprState.turn (st : DoprState) : DoprState :=
  match st.state with
  | .default =>
    if st.ch = 37 then { st with state := .flags }.next else (st.emit maxlen [st.ch]).next
  | .flags =>
    match setFlag st.ch st.flags with
    | some flags => { st with flags := flags }.next
    | none => { st with state := .min }
  | .min =>
    if isDigit 10 st.ch then { st with min := 10 * st.min + (st.ch.toNat - 48) }.next
    else if st.ch = 42 then
      { st.star fun n st => { st with min := n } with state := .dot }.next
    else { st with state := .dot }
  | .dot => if st.ch = 46 then { st with state := .max }.next else { st with state := .mod }
  | .max =>
    if isDigit 10 st.ch then
      { st with max := 10 * (if st.max < 0 then 0 else st.max) + (st.ch.toNat - 48) }.next
    else if st.ch = 42 then
      { st.star fun n st => { st with max := n } with state := .mod }.next
    else { st with state := .mod }
  | .mod =>
    if st.ch = 104 then { st with cflags := .short, state := .conv }.next
    else if st.ch = 108 then
      let st := { st with cflags := .long, state := .conv }.next
      if st.ch = 108 then { st with cflags := .longLong }.next else st
    else if st.ch = 113 then { st with cflags := .longLong, state := .conv }.next
    else if st.ch = 76 then { st with cflags := .ldouble, state := .conv }.next
    else { st with state := .conv }
  | .conv =>
    { st.convert maxlen fmtfp with
      state := .default, flags := {}, cflags := .none, min := 0, max := -1 }.next
  | .done => st

/-- One turn of the loop: it is the last one at the end of the format or of the buffer. -/
def DoprState.step (st : DoprState) : DoprState :=
  if st.ch = 0 ∨ maxlen ≤ st.out.length then { st with state := .done }
  else st.turn maxlen fmtfp

/-- The loop; no result where the fuel is used up. -/
def loop : Nat → DoprState → Option DoprState
  | 0, st => if st.state = .done then some st else none
  | fuel + 1, st => if st.state = .done then some st else loop fuel (st.step maxlen fmtfp)

/-- `dopr` on a format, which ends with a NUL, with as many turns as there can be. -/
def dopr (format : Bytes) (args : List VaArg) : Option DoprState :=
  loop maxlen fmtfp (10 * format.length + 20)
    (DoprState.next { format := format ++ [nul], ch := 0, args := args })

/-- Where the NUL is stored behind the output; `maxlen - 1` is a `size_t`. -/
def nulIndex (currlen : Nat) : Nat :=
  if currlen < (maxlen + 2 ^ 64 - 1) % 2 ^ 64 then currlen else (maxlen + 2 ^ 64 - 1) % 2 ^ 64

/-- What a call does to its buffer: the indices it stores to, and the string it leaves. -/
structure Written where
  stores : List Nat
  text : Bytes
  deriving DecidableEq

/-- What a call has done that ends in this state: the first character was cleared, and `dopr`
has written the buffer. -/
def DoprState.written (st : DoprState) : Written where
  stores := 0 :: (List.range st.out.length ++ [nulIndex maxlen st.out.length])
  text := cstr (st.out.take (nulIndex maxlen st.out.length))

/-- `vsnprintf`. -/
def vsnprintf (format : Bytes) (args : List VaArg) : Option Written :=
  (dopr maxlen fmtfp format args).map (DoprState.written maxlen)

/-- `snprintf`: the text that is left, and its length, which is returned. -/
def snprintf (format : Bytes) (args : List VaArg) : Option (Bytes × Nat) :=
  (vsnprintf maxlen fmtfp format args).map fun written => (written.text, written.text.length)

end Machine

end Rblpolicyd.Snprintf
