import Rblpolicyd.Semantics.Until
import Rblpolicyd.Snprintf.Bounds
import Rblpolicyd.Snprintf.Integers

/-!
# What the replacement `snprintf` prints

A format is a list of pieces: characters that stand for themselves, and directives with
their flags, width, size and conversion. The formatter takes a format apart into just these
pieces, in the states of its loop, and prints each as the standard says, cut where the
buffer ends. The directives are those for which it does so: without a precision, without a
`#`, with a `0` only for numbers and not beside a `-`, with characters and `%%` bare, and
with numbers of no more than 19 digits.

## Main definitions

* `Conv`, `Directive`, `Piece` — a piece of a format, with its argument
* `source`, `args`, `text` — what it is in the format, what it takes, and what it prints
* `Directive.Standard` — the directives that are printed as the standard says
* `place` — the state of the formatter in the middle of a directive

## Main results

* `directive_steps`, `pieces_steps` — the way of the formatter over a piece, and over all
* `dopr_pieces`, `vsnprintf_text` — the output for a format of such pieces
-/

namespace Rblpolicyd.Snprintf

open Libc Semantics

/-- The base of an unsigned conversion. -/
inductive Radix
  | octal
  | decimal
  | hexadecimal (up : Bool)
  deriving DecidableEq

namespace Radix

def base : Radix → Nat
  | octal => 8
  | decimal => 10
  | hexadecimal _ => 16

def letter : Radix → UInt8
  | octal => 111
  | decimal => 117
  | hexadecimal up => if up then 88 else 120

def up : Radix → Bool
  | hexadecimal up => up
  | _ => false

end Radix

/-- A conversion with its argument; `long` is the size of an integer. -/
inductive Conv
  | percent
  | char (c : UInt8)
  | string (s : Bytes)
  | signed (long : Bool) (n : Int)
  | unsigned (radix : Radix) (long : Bool) (n : Nat)
  deriving DecidableEq

namespace Conv

/-- The size of the argument is a `long`. -/
def long : Conv → Bool
  | signed long _ => long
  | unsigned _ long _ => long
  | _ => false

def letter : Conv → UInt8
  | percent => 37
  | char _ => 99
  | string _ => 115
  | signed _ _ => 100
  | unsigned radix _ _ => radix.letter

def args : Conv → List VaArg
  | percent => []
  | char c => [.int c.toNat]
  | string s => [.string (some s)]
  | signed _ n => [.int n]
  | unsigned _ _ n => [.int n]

end Conv

/-- A directive; the width is 0 where none is given. -/
structure Directive where
  flags : Bytes
  width : Nat
  conv : Conv
  deriving DecidableEq

/-- The sign of a signed number, or what the flags put in its place. -/
def signText (flags : Bytes) (n : Int) : Bytes :=
  if n < 0 then [45] else if 43 ∈ flags then [43] else if 32 ∈ flags then [32] else []

namespace Directive

/-- The width, the size and the letter of a directive. -/
def tail (d : Directive) : Bytes :=
  (if d.width = 0 then [] else decimal d.width) ++ (if d.conv.long then [108] else []) ++
    [d.conv.letter]

def source (d : Directive) : Bytes := 37 :: (d.flags ++ d.tail)

/-- What the standard prints for it. -/
def text (d : Directive) : Bytes :=
  match d.conv with
  | .percent => [37]
  | .char c => [c]
  | .string s => padBlanks (45 ∈ d.flags) d.width s
  | .signed _ n =>
    integerText (45 ∈ d.flags) (48 ∈ d.flags) d.width (signText d.flags n) (decimal n.natAbs)
  | .unsigned radix _ n =>
    integerText (45 ∈ d.flags) (48 ∈ d.flags) d.width [] (numeral radix.up radix.base n)

/-- The argument has its type, and the formatter knows how to print it. -/
def ArgStandard (d : Directive) : Prop :=
  match d.conv with
  | .percent => d.flags = [] ∧ d.width = 0
  | .char c => d.flags = [] ∧ d.width = 0 ∧ c ≠ nul
  | .string s => nul ∉ s ∧ s.length < 2 ^ 31 ∧ 48 ∉ d.flags
  | .signed long n =>
    if long then -2 ^ 63 ≤ n ∧ n < 2 ^ 63 else -2 ^ 31 ≤ n ∧ n < 2 ^ 31
  | .unsigned radix long n => n < radix.base ^ 19 ∧ n < 2 ^ (if long then 64 else 32)

/-- The directives that the formatter prints as the standard says. -/
structure Standard (d : Directive) : Prop where
  flags : ∀ b ∈ d.flags, b ∈ ascii "-+ 0"
  zero : 48 ∈ d.flags → 45 ∉ d.flags
  width : d.width < 2 ^ 31
  arg : d.ArgStandard

end Directive

/-- A piece of a format. -/
inductive Piece
  | plain (c : UInt8)
  | directive (d : Directive)
  deriving DecidableEq

namespace Piece

def source : Piece → Bytes
  | plain c => [c]
  | directive d => d.source

def args : Piece → List VaArg
  | plain _ => []
  | directive d => d.conv.args

def text : Piece → Bytes
  | plain c => [c]
  | directive d => d.text

/-- A piece that is printed as the standard says. -/
def Standard : Piece → Prop
  | plain c => c ≠ nul ∧ c ≠ 37
  | directive d => d.Standard

end Piece

variable {maxlen : Nat} {fmtfp : Nat → Int → Int → DpFlags → Bytes} {st st' : DoprState}
  {out : Bytes} {args : List VaArg} {flags : DpFlags} {min : Int} {cflags : DpLength}
  {c : UInt8} {s : Bytes} {d : Directive}

/-! ### Turns of the loop -/

/-- One turn of the loop, where it is not done. -/
def DoprState.advance (maxlen : Nat) (fmtfp : Nat → Int → Int → DpFlags → Bytes)
    (st : DoprState) : Option DoprState :=
  if st.state = .done then none else some (st.step maxlen fmtfp)

/-- The turns of the loop lead from one state to another. -/
abbrev Steps (maxlen : Nat) (fmtfp : Nat → Int → Int → DpFlags → Bytes) :
    DoprState → DoprState → Prop :=
  Reaches (DoprState.advance maxlen fmtfp)

/-- The loop has no other end than the one its turns lead to. -/
theorem loop_eq_of_steps (h : Steps maxlen fmtfp st st') (hdone : st'.state = .done)
    {fuel : Nat} {last : DoprState} (hloop : loop maxlen fmtfp fuel st = some last) :
    last = st' := by
  induction h using Relation.ReflTransGen.head_induction_on generalizing fuel with
  | refl =>
    cases fuel <;> rw [loop, if_pos hdone] at hloop <;> exact (Option.some.inj hloop).symm
  | @head st mid hstep _ ih =>
    unfold DoprState.advance at hstep
    split_ifs at hstep with hend
    obtain rfl := Option.some.inj hstep
    cases fuel with
    | zero => rw [loop, if_neg hend] at hloop; contradiction
    | succ fuel =>
      rw [loop, if_neg hend] at hloop
      exact ih hloop

/-- In front of the NUL, and with room in the buffer, a turn is one of the `switch`. -/
theorem steps_turn (hdone : st.state ≠ .done) (hch : st.ch ≠ 0) (hroom : st.out.length < maxlen) :
    Steps maxlen fmtfp st (st.turn maxlen fmtfp) := by
  apply Relation.ReflTransGen.single
  rw [DoprState.advance, if_neg hdone, DoprState.step, if_neg]
  rintro (h | h)
  · exact hch h
  · omega

/-- At its end, or at that of the buffer, the loop is done. -/
theorem steps_done (hdone : st.state ≠ .done) (hend : st.ch = 0 ∨ maxlen ≤ st.out.length) :
    Steps maxlen fmtfp st { st with state := .done } := by
  apply Relation.ReflTransGen.single
  rw [DoprState.advance, if_neg hdone, DoprState.step, if_pos hend]

/-- The formatter in front of a text, somewhere in a directive. -/
def place (out : Bytes) (args : List VaArg) (state : DpState) (flags : DpFlags) (min : Int)
    (cflags : DpLength) (s : Bytes) : DoprState :=
  { format := s.tail, ch := s.headD 0, state := state, flags := flags, min := min,
    cflags := cflags, args := args, out := out }

/-- The formatter in front of a piece. -/
abbrev start (out : Bytes) (args : List VaArg) (s : Bytes) : DoprState :=
  place out args .default {} 0 .none s

theorem place_next {state : DpState} (hs : s ≠ []) :
    (place out args state flags min cflags (c :: s)).next =
      place out args state flags min cflags s := by
  cases s with
  | nil => contradiction
  | cons b rest => rfl

/-- A turn that reads on. -/
theorem steps_next {state : DpState} (hdone : st.state ≠ .done) (hch : st.ch ≠ 0)
    (hroom : st.out.length < maxlen) (hs : s ≠ [])
    (hturn : st.turn maxlen fmtfp = (place out args state flags min cflags (c :: s)).next) :
    Steps maxlen fmtfp st (place out args state flags min cflags s) := by
  have h : Steps maxlen fmtfp st (st.turn maxlen fmtfp) := steps_turn hdone hch hroom
  rwa [hturn, place_next hs] at h

section Turns

variable (hroom : out.length < maxlen) (hs : s ≠ [])
include hroom hs

theorem steps_plain (hc : c ≠ nul) (hpercent : c ≠ 37) :
    Steps maxlen fmtfp (start out args (c :: s)) (start (out ++ [c]) args s) := by
  apply steps_next (c := c) (by simp [place]) hc hroom hs
  rw [DoprState.turn]
  simp only [place, List.headD_cons, hpercent, if_false, DoprState.emit]
  rw [outchs_eq hroom.le, List.take_of_length_le (by simpa using hroom)]

theorem steps_percent :
    Steps maxlen fmtfp (start out args (37 :: s)) (place out args .flags {} 0 .none s) :=
  steps_next (c := 37) (by simp [place]) (by simp [place]) hroom hs rfl

theorem steps_flag {flags' : DpFlags} (hset : setFlag c flags = some flags') :
    Steps maxlen fmtfp (place out args .flags flags min cflags (c :: s))
      (place out args .flags flags' min cflags s) := by
  have hc : c ≠ nul := by
    rintro rfl
    exact absurd hset (by simp [setFlag, nul])
  apply steps_next (c := c) (by simp [place]) hc hroom hs
  rw [DoprState.turn]
  simp only [place, List.headD_cons, hset]

theorem steps_digit (hdigit : isDigit 10 c = true) :
    Steps maxlen fmtfp (place out args .min flags min cflags (c :: s))
      (place out args .min flags (10 * min + (c.toNat - 48)) cflags s) := by
  have hc : c ≠ nul := by
    rintro rfl
    exact absurd hdigit (by decide)
  apply steps_next (c := c) (by simp [place]) hc hroom hs
  rw [DoprState.turn]
  simp only [place, List.headD_cons, hdigit, if_true]

/-- The digits of a width. -/
theorem steps_digits {ds : Bytes} (hds : ∀ b ∈ ds, isDigit 10 b = true) (n : Nat) :
    Steps maxlen fmtfp (place out args .min flags n cflags (ds ++ s))
      (place out args .min flags (ds.foldl (fun n b => 10 * n + (b.toNat - 48)) n : Nat)
        cflags s) := by
  induction ds generalizing n with
  | nil => exact Relation.ReflTransGen.refl
  | cons b ds ih =>
    have hb := hds b List.mem_cons_self
    have hlow : 48 ≤ b.toNat := (isDigit_ten_iff.mp hb).1
    have hstep : Steps maxlen fmtfp
        (place out args .min flags n cflags (b :: (ds ++ s)))
        (place out args .min flags (10 * n + (b.toNat - 48)) cflags (ds ++ s)) :=
      steps_digit hroom (by simp [hs]) hb
    have hcast : (10 * n + (b.toNat - 48) : Int) = ((10 * n + (b.toNat - 48) : Nat) : Int) := by
      omega
    rw [hcast] at hstep
    exact hstep.trans (ih (fun c hc => hds c (List.mem_cons_of_mem b hc)) _)

theorem steps_long (hlong : s.headD 0 ≠ 108) :
    Steps maxlen fmtfp (place out args .mod flags min .none (108 :: s))
      (place out args .conv flags min .long s) := by
  apply steps_next (c := 108) (by simp [place]) (by simp [place]) hroom hs
  rw [DoprState.turn]
  cases s with
  | nil => contradiction
  | cons b rest =>
    have hb : b ≠ 108 := hlong
    simp [place, DoprState.next, hb]

end Turns

/-! ### A directive -/

/-- The character ends the flags and the width of a directive, and no precision follows. -/
structure EndsWidth (c : UInt8) : Prop where
  flag : c ∉ ascii "-+ #0"
  digit : isDigit 10 c = false
  star : c ≠ 42
  dot : c ≠ 46
  nul : c ≠ nul

theorem setFlag_eq_none (h : c ∉ ascii "-+ #0") : setFlag c flags = none := by
  simp only [show ascii "-+ #0" = [45, 43, 32, 35, 48] from rfl, List.mem_cons,
    List.not_mem_nil, or_false, not_or] at h
  simp [setFlag, h]

/-- The last characters of the directives. -/
def letters : Bytes := ascii "%csdouxX"

theorem letter_mem (conv : Conv) : conv.letter ∈ letters := by
  cases conv with
  | unsigned radix long n =>
    cases radix with
    | hexadecimal up => cases up <;> simp [letters, ascii, Conv.letter, Radix.letter]
    | _ => simp [letters, ascii, Conv.letter, Radix.letter]
  | _ => simp [letters, ascii, Conv.letter]

theorem letters_facts : ∀ c ∈ letters, (c ∉ ascii "-+ #0" ∧ isDigit 10 c = false ∧ c ≠ 42 ∧
    c ≠ 46 ∧ c ≠ nul) ∧ c ≠ 104 ∧ c ≠ 108 ∧ c ≠ 113 ∧ c ≠ 76 := by
  decide +kernel

theorem endsWidth_letter (conv : Conv) : EndsWidth conv.letter := by
  obtain ⟨⟨hflag, hdigit, hstar, hdot, hnul⟩, -⟩ := letters_facts _ (letter_mem conv)
  exact ⟨hflag, hdigit, hstar, hdot, hnul⟩

theorem endsWidth_long : EndsWidth 108 := by
  refine ⟨?_, ?_, ?_, ?_, ?_⟩ <;> decide +kernel

/-- The size and the letter begin with a character that ends a width. -/
theorem exists_size_eq_cons (conv : Conv) (s : Bytes) :
    ∃ b rest, EndsWidth b ∧
      (if conv.long then [108] else []) ++ conv.letter :: s = b :: rest := by
  cases conv.long with
  | true => exact ⟨108, _, endsWidth_long, rfl⟩
  | false => exact ⟨_, _, endsWidth_letter conv, rfl⟩

/-- Behind the flags. -/
theorem steps_flags_min (hroom : out.length < maxlen) (hflag : setFlag c flags = none)
    (hc : c ≠ nul) :
    Steps maxlen fmtfp (place out args .flags flags min cflags (c :: s))
      (place out args .min flags min cflags (c :: s)) := by
  have hturn : (place out args .flags flags min cflags (c :: s)).turn maxlen fmtfp =
      place out args .min flags min cflags (c :: s) := by
    rw [DoprState.turn]
    simp only [place, List.headD_cons, hflag]
  rw [← hturn]
  exact steps_turn (by simp [place]) hc hroom

/-- Behind the width. -/
theorem steps_min_mod (hroom : out.length < maxlen) (h : EndsWidth c) :
    Steps maxlen fmtfp (place out args .min flags min cflags (c :: s))
      (place out args .mod flags min cflags (c :: s)) := by
  have hmin : (place out args .min flags min cflags (c :: s)).turn maxlen fmtfp =
      place out args .dot flags min cflags (c :: s) := by
    rw [DoprState.turn]
    simp [place, h.digit, h.star]
  have hdot : (place out args .dot flags min cflags (c :: s)).turn maxlen fmtfp =
      place out args .mod flags min cflags (c :: s) := by
    rw [DoprState.turn]
    simp [place, h.dot]
  have hfirst : Steps maxlen fmtfp (place out args .min flags min cflags (c :: s))
      (place out args .dot flags min cflags (c :: s)) := by
    rw [← hmin]
    exact steps_turn (by simp [place]) h.nul hroom
  have hsecond : Steps maxlen fmtfp (place out args .dot flags min cflags (c :: s))
      (place out args .mod flags min cflags (c :: s)) := by
    rw [← hdot]
    exact steps_turn (by simp [place]) h.nul hroom
  exact hfirst.trans hsecond

/-- The size, in front of the letter. -/
theorem steps_mod_conv (hroom : out.length < maxlen) (conv : Conv) :
    Steps maxlen fmtfp
      (place out args .mod flags min .none
        ((if conv.long then [108] else []) ++ conv.letter :: s))
      (place out args .conv flags min (if conv.long then .long else .none)
        (conv.letter :: s)) := by
  obtain ⟨⟨-, -, -, -, hnul⟩, hshort, hlong, hquad, hldouble⟩ :=
    letters_facts _ (letter_mem conv)
  cases conv.long with
  | true => exact steps_long hroom (List.cons_ne_nil _ _) hlong
  | false =>
    have hturn : (place out args .mod flags min .none (conv.letter :: s)).turn maxlen fmtfp =
        place out args .conv flags min .none (conv.letter :: s) := by
      rw [DoprState.turn]
      simp [place, hshort, hlong, hquad, hldouble]
    simp only [Bool.false_eq_true, if_false, List.nil_append]
    rw [← hturn]
    exact steps_turn (by simp [place]) hnul hroom

theorem decimalValue_decimal (n : Nat) : decimalValue (decimal n) = n := by
  have hdigits : ∀ b ∈ decimal n, isDigit 10 b = true :=
    fun b hb => isDigit_ten_iff.mpr (decimal_isDigit hb)
  have hread := readDigits_decimal n []
  rw [List.append_nil] at hread
  rw [← readDigits_eq_decimalValue hdigits, hread]
  rfl

/-- The width, the size and the letter. -/
theorem steps_tail (hroom : out.length < maxlen) (d : Directive) :
    Steps maxlen fmtfp (place out args .flags flags 0 .none (d.tail ++ s))
      (place out args .conv flags d.width (if d.conv.long then .long else .none)
        (d.conv.letter :: s)) := by
  obtain ⟨b, rest, hends, hrest⟩ := exists_size_eq_cons d.conv s
  have htail : d.tail ++ s = (if d.width = 0 then [] else decimal d.width) ++ b :: rest := by
    rw [← hrest, Directive.tail]
    simp
  have hmod : Steps maxlen fmtfp (place out args .mod flags d.width .none (b :: rest))
      (place out args .conv flags d.width (if d.conv.long then .long else .none)
        (d.conv.letter :: s)) := by
    rw [← hrest]
    exact steps_mod_conv hroom d.conv
  have hwidth : Steps maxlen fmtfp (place out args .min flags d.width .none (b :: rest))
      (place out args .mod flags d.width .none (b :: rest)) :=
    steps_min_mod hroom hends
  rw [htail]
  by_cases hzero : d.width = 0
  · rw [if_pos hzero, List.nil_append]
    rw [hzero] at hwidth hmod ⊢
    exact (steps_flags_min hroom (setFlag_eq_none hends.flag) hends.nul).trans
      (hwidth.trans hmod)
  · rw [if_neg hzero]
    obtain ⟨digit, ds, hlow, hhigh, heq⟩ := exists_decimal_eq_cons (Nat.pos_of_ne_zero hzero)
    have hdigits : ∀ c ∈ decimal d.width, isDigit 10 c = true :=
      fun c hc => isDigit_ten_iff.mpr (decimal_isDigit hc)
    have hfirst : setFlag (UInt8.ofNat (48 + digit)) flags = none ∧
        UInt8.ofNat (48 + digit) ≠ nul := by
      interval_cases digit <;> exact ⟨rfl, by decide⟩
    have hvalue := decimalValue_decimal d.width
    rw [decimalValue] at hvalue
    have hmin : Steps maxlen fmtfp
        (place out args .min flags 0 .none (decimal d.width ++ b :: rest))
        (place out args .min flags d.width .none (b :: rest)) := by
      nth_rewrite 2 [← hvalue]
      exact steps_digits hroom (List.cons_ne_nil b rest) hdigits 0
    refine Relation.ReflTransGen.trans ?_ (hmin.trans (hwidth.trans hmod))
    rw [heq]
    exact steps_flags_min hroom hfirst.1 hfirst.2

/-- The flags that have been read. -/
def flagsOf (bs : Bytes) : DpFlags :=
  { minus := 45 ∈ bs, plus := 43 ∈ bs, space := 32 ∈ bs, zero := 48 ∈ bs }

theorem setFlag_flagsOf {b : UInt8} (hb : b ∈ ascii "-+ 0") (before : Bytes) :
    setFlag b (flagsOf before) = some (flagsOf (before ++ [b])) := by
  simp only [show ascii "-+ 0" = [45, 43, 32, 48] from rfl, List.mem_cons, List.not_mem_nil,
    or_false] at hb
  rcases hb with rfl | rfl | rfl | rfl <;> simp [setFlag, flagsOf]

theorem steps_flags (hroom : out.length < maxlen) (hs : s ≠ []) {bs : Bytes}
    (hbs : ∀ b ∈ bs, b ∈ ascii "-+ 0") (before : Bytes) :
    Steps maxlen fmtfp (place out args .flags (flagsOf before) min cflags (bs ++ s))
      (place out args .flags (flagsOf (before ++ bs)) min cflags s) := by
  induction bs generalizing before with
  | nil =>
    rw [List.append_nil]
    exact Relation.ReflTransGen.refl
  | cons b bs ih =>
    have hb := hbs b List.mem_cons_self
    have hstep : Steps maxlen fmtfp
        (place out args .flags (flagsOf before) min cflags (b :: (bs ++ s)))
        (place out args .flags (flagsOf (before ++ [b])) min cflags (bs ++ s)) :=
      steps_flag hroom (by simp [hs]) (setFlag_flagsOf hb before)
    have hrest := ih (fun c hc => hbs c (List.mem_cons_of_mem b hc)) (before ++ [b])
    rw [List.append_assoc, List.singleton_append] at hrest
    exact hstep.trans hrest

theorem take_append_take (text : Bytes) :
    (out ++ text.take maxlen).take maxlen = (out ++ text).take maxlen := by
  have hle : maxlen - out.length ≤ maxlen := Nat.sub_le _ _
  rw [List.take_append, List.take_append, List.take_take, min_eq_left hle]

theorem fmtstr_eq (s : Bytes) (width max : Nat) :
    fmtstr (some s) flags width max = (padBlanks flags.minus width s).take max := by
  have hpad : (Max.max 0 ((width : Int) - s.length)).toNat = width - s.length := by omega
  unfold fmtstr padBlanks
  simp only [Option.getD_some, Int.toNat_natCast, hpad]

theorem fmtint_signed {n : Int} (hn : -2 ^ 63 ≤ n ∧ n < 2 ^ 63)
    (hzero : 48 ∈ d.flags → 45 ∉ d.flags) :
    fmtint n 10 d.width (-1) (flagsOf d.flags) =
      integerText (45 ∈ d.flags) (48 ∈ d.flags) d.width (signText d.flags n)
        (decimal n.natAbs) := by
  have hmagnitude : magnitude n (flagsOf d.flags) = n.natAbs := by
    unfold magnitude flagsOf
    by_cases hneg : n < 0
    · simp only [hneg, Bool.not_false, decide_true, Bool.and_self, if_true]
      omega
    · simp only [hneg, decide_false, Bool.and_false, Bool.false_eq_true, if_false]
      omega
  have hsign : signvalue n (flagsOf d.flags) = signText d.flags n := by
    simp [signvalue, signText, flagsOf]
  rw [fmtint_eq (by norm_num) (by norm_num) d.width (by simpa [flagsOf] using hzero) (by omega), hmagnitude,
    hsign, numeral_ten]
  rfl

theorem fmtint_unsigned {n : Nat} (radix : Radix) (hn : n < radix.base ^ 19)
    (hsize : n < 2 ^ 64) (hzero : 48 ∈ d.flags → 45 ∉ d.flags) :
    fmtint n radix.base d.width (-1)
        { flagsOf d.flags with up := radix.up, unsigned := true } =
      integerText (45 ∈ d.flags) (48 ∈ d.flags) d.width [] (numeral radix.up radix.base n) := by
  have hbase : 1 < radix.base ∧ radix.base ≤ 16 := by
    cases radix <;> norm_num [Radix.base]
  have hmagnitude : magnitude n { flagsOf d.flags with up := radix.up, unsigned := true } = n := by
    unfold magnitude
    simp only [Bool.not_true, Bool.false_and, Bool.false_eq_true, if_false]
    omega
  rw [fmtint_eq hbase.1 hbase.2 d.width (by simpa [flagsOf] using hzero) (by rw [hmagnitude]; exact hn),
    hmagnitude]
  rfl

/-- The text of a conversion is the one of the standard. -/
theorem convert_directive (hd : d.Standard) (hroom : out.length < maxlen)
    (hmaxlen : maxlen < 2 ^ 31) :
    (place out (d.conv.args ++ args) .conv (flagsOf d.flags) d.width
        (if d.conv.long then .long else .none) (d.conv.letter :: s)).convert maxlen fmtfp =
      place ((out ++ d.text).take maxlen) args .conv (flagsOf d.flags) d.width
        (if d.conv.long then .long else .none) (d.conv.letter :: s) := by
  have harg := hd.arg
  unfold Directive.ArgStandard at harg
  unfold Directive.text
  cases hconv : d.conv with
  | percent =>
    rw [← outchs_eq hroom.le]
    rfl
  | char c =>
    rw [← outchs_eq hroom.le]
    have hbyte : UInt8.ofNat ((c.toNat : Int) % 256).toNat = c := by
      have hlt := c.toNat_lt
      have hmod : ((c.toNat : Int) % 256).toNat = c.toNat := by omega
      rw [hmod, UInt8.ofNat_toNat]
    simp [DoprState.convert, place, convKind, Conv.letter, Conv.args, DoprState.emit, hbyte]
  | string s =>
    have hmax : toInt32 maxlen = maxlen := toInt32_of_mem (by omega)
    rw [← take_append_take, ← outchs_eq hroom.le]
    simp [DoprState.convert, place, convKind, Conv.letter, Conv.args, DoprState.emit, hmax,
      fmtstr_eq, flagsOf, Conv.long]
  | signed long n =>
    simp only [hconv] at harg
    have hn : -2 ^ 63 ≤ n ∧ n < 2 ^ 63 := by
      cases long <;> simp at harg <;> omega
    dsimp only
    rw [← fmtint_signed hn hd.zero, ← outchs_eq hroom.le]
    simp [DoprState.convert, place, convKind, Conv.letter, Conv.args, DoprState.emit,
      DoprState.integer]
  | unsigned radix long n =>
    simp only [hconv] at harg
    have hsize : n < 2 ^ 64 := by
      cases long <;> simp at harg <;> omega
    have hvalue : ∀ st : DoprState, st.cflags = (if long then .long else .none) →
        st.unsignedValue n = n := by
      intro st hst
      rw [DoprState.unsignedValue, hst]
      cases long <;> simp at harg ⊢ <;> omega
    have hkind : convKind radix.letter = .unsigned radix.base radix.up := by
      cases radix with
      | hexadecimal up => cases up <;> rfl
      | _ => rfl
    dsimp only
    rw [← fmtint_unsigned radix harg.1 hsize hd.zero, ← outchs_eq hroom.le]
    simp only [DoprState.convert, place, List.headD_cons, List.tail_cons, hkind, Conv.letter,
      Conv.args, List.cons_append, List.nil_append, DoprState.emit, DoprState.integer, Conv.long,
      flagsOf, Bool.false_or]
    rw [hvalue _ rfl]

/-! ### Formats -/

/-- The way over a directive. -/
theorem directive_steps (hd : d.Standard) (hroom : out.length < maxlen)
    (hmaxlen : maxlen < 2 ^ 31) (hs : s ≠ []) :
    Steps maxlen fmtfp (start out (d.conv.args ++ args) (d.source ++ s))
      (start ((out ++ d.text).take maxlen) args s) := by
  have hnul := (endsWidth_letter d.conv).nul
  have htail : d.tail ++ s ≠ [] := by simp [hs]
  have hflags : Steps maxlen fmtfp
      (place out (d.conv.args ++ args) .flags {} 0 .none (d.flags ++ (d.tail ++ s)))
      (place out (d.conv.args ++ args) .flags (flagsOf d.flags) 0 .none (d.tail ++ s)) :=
    steps_flags hroom htail hd.flags []
  have hconv : Steps maxlen fmtfp
      (place out (d.conv.args ++ args) .conv (flagsOf d.flags) d.width
        (if d.conv.long then .long else .none) (d.conv.letter :: s))
      (start ((out ++ d.text).take maxlen) args s) := by
    apply steps_next (c := d.conv.letter) (by simp [place]) hnul hroom hs
    have hstate : ∀ cflags, (place out (d.conv.args ++ args) .conv (flagsOf d.flags) d.width
        cflags (d.conv.letter :: s)).state = .conv := fun _ => rfl
    rw [DoprState.turn]
    simp only [hstate, convert_directive hd hroom hmaxlen]
    rfl
  have hsource : d.source ++ s = 37 :: (d.flags ++ (d.tail ++ s)) := by simp [Directive.source]
  rw [hsource]
  have hpercent : Steps maxlen fmtfp
      (start out (d.conv.args ++ args) (37 :: (d.flags ++ (d.tail ++ s))))
      (place out (d.conv.args ++ args) .flags {} 0 .none (d.flags ++ (d.tail ++ s))) :=
    steps_percent hroom (by simp [hs])
  exact ((hpercent.trans hflags).trans (steps_tail hroom d)).trans hconv

theorem piece_steps {p : Piece} (hp : p.Standard) (hroom : out.length < maxlen)
    (hmaxlen : maxlen < 2 ^ 31) (hs : s ≠ []) :
    Steps maxlen fmtfp (start out (p.args ++ args) (p.source ++ s))
      (start ((out ++ p.text).take maxlen) args s) := by
  cases p with
  | plain c =>
    have hlength : (out ++ [c]).length ≤ maxlen := by simpa using hroom
    have hstep : Steps maxlen fmtfp (start out args (c :: s)) (start (out ++ [c]) args s) :=
      steps_plain hroom hs hp.1 hp.2
    rwa [← List.take_of_length_le hlength] at hstep
  | directive d => exact directive_steps hp hroom hmaxlen hs

/-- The way over all pieces: what has been printed is in the buffer as far as it goes. -/
theorem pieces_steps (fmtfp : Nat → Int → Int → DpFlags → Bytes) (hmaxlen : maxlen < 2 ^ 31)
    {pieces : List Piece} (hpieces : ∀ p ∈ pieces, p.Standard) (printed : Bytes) :
    ∃ st, Steps maxlen fmtfp
        (start (printed.take maxlen) (pieces.flatMap Piece.args)
          (pieces.flatMap Piece.source ++ [nul])) st ∧
      st.state = .done ∧ st.out = (printed ++ pieces.flatMap Piece.text).take maxlen := by
  induction pieces generalizing printed with
  | nil =>
    refine ⟨_, steps_done (by simp [place]) (Or.inl rfl), rfl, ?_⟩
    simp [place]
  | cons p pieces ih =>
    by_cases hroom : printed.length < maxlen
    · have hfirst : Steps maxlen fmtfp
          (start printed (p.args ++ pieces.flatMap Piece.args)
            (p.source ++ (pieces.flatMap Piece.source ++ [nul])))
          (start ((printed ++ p.text).take maxlen) (pieces.flatMap Piece.args)
            (pieces.flatMap Piece.source ++ [nul])) :=
        piece_steps (hpieces p List.mem_cons_self) hroom hmaxlen (by simp)
      obtain ⟨st, hsteps, hdone, hout⟩ :=
        ih (fun q hq => hpieces q (List.mem_cons_of_mem p hq)) (printed ++ p.text)
      refine ⟨st, ?_, hdone, ?_⟩
      · rw [List.take_of_length_le hroom.le, List.flatMap_cons, List.flatMap_cons,
          List.append_assoc]
        exact hfirst.trans hsteps
      · rw [hout, List.flatMap_cons, List.append_assoc]
    · -- the buffer is full, and nothing more is stored
      have hfull : maxlen ≤ printed.length := Nat.le_of_not_lt hroom
      refine ⟨_, steps_done (by simp [place]) (Or.inr ?_), rfl, ?_⟩
      · simp [place, hfull]
      · rw [List.take_append_of_le_length hfull]
        rfl

/-- The output for a format of such pieces. -/
theorem dopr_pieces (fmtfp : Nat → Int → Int → DpFlags → Bytes) (hmaxlen : maxlen < 2 ^ 31)
    {pieces : List Piece} (hpieces : ∀ p ∈ pieces, p.Standard) :
    ∃ st, dopr maxlen fmtfp (pieces.flatMap Piece.source) (pieces.flatMap Piece.args) = some st ∧
      st.out = (pieces.flatMap Piece.text).take maxlen := by
  obtain ⟨st, hsteps, hdone, hout⟩ := pieces_steps fmtfp hmaxlen hpieces []
  obtain ⟨last, hdopr, -⟩ := dopr_inBounds maxlen fmtfp (pieces.flatMap Piece.source)
    (pieces.flatMap Piece.args)
  have hfirst : DoprState.next
      { format := pieces.flatMap Piece.source ++ [nul], ch := 0,
        args := pieces.flatMap Piece.args } =
      start [] (pieces.flatMap Piece.args) (pieces.flatMap Piece.source ++ [nul]) := by
    cases pieces.flatMap Piece.source <;> rfl
  have hloop := hdopr
  rw [dopr, hfirst] at hloop
  rw [List.take_nil] at hsteps
  have hlast := loop_eq_of_steps hsteps hdone hloop
  exact ⟨last, hdopr, by rw [hlast, hout, List.nil_append]⟩

/-! ### The text has no NUL -/

theorem nul_notMem_padBlanks {left : Bool} {width : Nat} {text : Bytes} (h : nul ∉ text) :
    nul ∉ padBlanks left width text := by
  have hblank : nul ≠ 32 := by decide
  cases left <;> simp [padBlanks, h, hblank]

theorem nul_notMem_integerText {left zero : Bool} {width : Nat} {sign digits : Bytes}
    (hsign : nul ∉ sign) (hdigits : nul ∉ digits) :
    nul ∉ integerText left zero width sign digits := by
  have hzero : nul ≠ 48 := by decide
  unfold integerText
  split_ifs
  · simp [hsign, hdigits, hzero]
  · exact nul_notMem_padBlanks (by simp [hsign, hdigits])

theorem nul_notMem_numeral (radix : Radix) (n : Nat) : nul ∉ numeral radix.up radix.base n := by
  have hdigit : ∀ caps, ∀ d < 16, standardDigit caps d ≠ nul := by decide
  have hbase : 1 < radix.base ∧ radix.base ≤ 16 := by
    cases radix <;> norm_num [Radix.base]
  unfold numeral
  split_ifs with hn
  · decide
  · intro hmem
    obtain ⟨d, hd, heq⟩ := List.mem_map.mp hmem
    have hlt := Nat.digits_lt_base hbase.1 (List.mem_reverse.mp hd)
    exact hdigit _ d (by omega) heq

theorem nul_notMem_text (hd : d.Standard) : nul ∉ d.text := by
  have harg := hd.arg
  have hdecimal : ∀ n, nul ∉ decimal n := fun n hmem =>
    absurd (decimal_isDigit hmem).1 (by decide)
  unfold Directive.ArgStandard at harg
  unfold Directive.text
  cases hconv : d.conv with
  | percent => exact (by decide : nul ∉ ([37] : Bytes))
  | char c =>
    simp only [hconv] at harg
    exact fun hmem => harg.2.2 (List.mem_singleton.mp hmem).symm
  | string s =>
    simp only [hconv] at harg
    exact nul_notMem_padBlanks harg.1
  | signed long n =>
    have hsign : nul ∉ signText d.flags n := by
      unfold signText
      split_ifs <;> decide
    exact nul_notMem_integerText hsign (hdecimal _)
  | unsigned radix long n =>
    exact nul_notMem_integerText (by decide) (nul_notMem_numeral radix n)

theorem nul_notMem_pieces {pieces : List Piece} (hpieces : ∀ p ∈ pieces, p.Standard) :
    nul ∉ pieces.flatMap Piece.text := by
  intro hmem
  obtain ⟨p, hp, hnul⟩ := List.mem_flatMap.mp hmem
  have hstandard := hpieces p hp
  cases p with
  | plain c => exact hstandard.1 (List.mem_singleton.mp hnul).symm
  | directive d => exact nul_notMem_text hstandard hnul

/-- The text that a call leaves for a format of such pieces. -/
theorem vsnprintf_text (fmtfp : Nat → Int → Int → DpFlags → Bytes) (hpos : 0 < maxlen)
    (hmaxlen : maxlen < 2 ^ 31) {pieces : List Piece} (hpieces : ∀ p ∈ pieces, p.Standard) :
    (vsnprintf maxlen fmtfp (pieces.flatMap Piece.source) (pieces.flatMap Piece.args)).map
      Written.text = some ((pieces.flatMap Piece.text).take (maxlen - 1)) := by
  obtain ⟨st, hdopr, hout⟩ := dopr_pieces fmtfp hmaxlen hpieces
  have hindex : (maxlen + 2 ^ 64 - 1) % 2 ^ 64 = maxlen - 1 := by omega
  have htake : st.out.take (nulIndex maxlen st.out.length) =
      (pieces.flatMap Piece.text).take (maxlen - 1) := by
    rw [nulIndex, hindex, hout, List.length_take]
    split_ifs with hshort
    · rw [List.take_take, List.take_of_length_le (by omega), List.take_of_length_le (by omega)]
    · rw [List.take_take, min_eq_left (by omega)]
  have hcstr : cstr ((pieces.flatMap Piece.text).take (maxlen - 1)) =
      (pieces.flatMap Piece.text).take (maxlen - 1) :=
    cstr_eq_self fun hmem => nul_notMem_pieces hpieces (List.mem_of_mem_take hmem)
  rw [vsnprintf, hdopr, Option.map_some, Option.map_some, DoprState.written, htake, hcstr]

end Rblpolicyd.Snprintf
