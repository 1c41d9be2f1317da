import Rblpolicyd.Libc.Printf
import Rblpolicyd.Snprintf.Pieces

/-!
# The replacement in place of the library's `vsnprintf`

`dbg` and `fmt_secs` call the function of the C library where there is one, and the
replacement elsewhere. On formats of plain characters, `%%`, strings and signed integers,
with widths and the flag `-`, both leave the same text in the buffer, so that what holds of
a message holds on either system. What `snprintf` returns differs: the replacement counts
the characters that it has stored, the library those that it would have liked to store.

## Main definitions

* `Piece.Common` — the pieces that the library's function is modelled for
* `Directive.conversion` — a directive as the library reads it

## Main results

* `readConversion_directive`, `expandFrom_pieces` — the library reads the same pieces
* `vsnprintf_eq_library` — both leave the same text
* `snprintf_standard` — the text for all pieces, and when the value is the standard's
-/

namespace Rblpolicyd.Snprintf

open Libc

/-- The pieces that the library's function is modelled for. -/
def Piece.Common : Piece → Prop
  | plain _ => True
  | directive d => (∀ b ∈ d.flags, b = 45) ∧
    match d.conv with
    | .percent | .string _ | .signed _ _ => True
    | .char _ | .unsigned _ _ _ => False

/-- The argument, for the library. -/
def Piece.argument : Piece → List Argument
  | plain _ => []
  | directive d =>
    match d.conv with
    | .string s => [.string s]
    | .signed _ n => [.int n]
    | .percent | .char _ | .unsigned _ _ _ => []

/-- A directive as the library reads it. -/
def Directive.conversion (d : Directive) : Conversion where
  flags := d.flags
  width := if d.width = 0 then [] else decimal d.width
  precision := none
  length := if d.conv.long then [108] else []
  specifier := d.conv.letter

variable {maxlen : Nat} {fmtfp : Nat → Int → Int → DpFlags → Bytes} {d : Directive} {s : Bytes}

/-! ### Reading a directive -/

theorem span_append {p : UInt8 → Bool} {front : Bytes} {b : UInt8}
    (hfront : ∀ c ∈ front, p c = true) (hb : p b = false) (rest : Bytes) :
    (front ++ b :: rest).takeWhile p = front ∧
      (front ++ b :: rest).dropWhile p = b :: rest := by
  constructor
  · rw [List.takeWhile_append_of_pos hfront, List.takeWhile_cons_of_neg (by simp [hb]),
      List.append_nil]
  · rw [dropWhile_append_of_all hfront, List.dropWhile_cons_of_neg (by simp [hb])]

theorem readWidth_tail (d : Directive) (s : Bytes) :
    readWidth (d.tail ++ s) =
      (d.conversion.width, (if d.conv.long then [108] else []) ++ d.conv.letter :: s) := by
  obtain ⟨b, rest, hends, hsize⟩ := exists_size_eq_cons d.conv s
  have htail : d.tail ++ s = d.conversion.width ++ b :: rest := by
    rw [← hsize, Directive.tail, Directive.conversion]
    simp
  rw [htail, hsize]
  have hwidth : ∀ c ∈ d.conversion.width, isDigit 10 c = true := by
    intro c hc
    unfold Directive.conversion at hc
    by_cases hzero : d.width = 0
    · simp [hzero] at hc
    · simp only [hzero, if_false] at hc
      exact isDigit_ten_iff.mpr (decimal_isDigit hc)
  obtain ⟨htake, hdrop⟩ := span_append hwidth hends.digit rest
  cases hcons : d.conversion.width ++ b :: rest with
  | nil => simp at hcons
  | cons c t =>
    have hstar : c ≠ 42 := by
      intro hc
      cases hdigits : d.conversion.width with
      | nil =>
        rw [hdigits, List.nil_append] at hcons
        exact hends.star ((List.cons.inj hcons).1.trans hc)
      | cons digit ds =>
        rw [hdigits, List.cons_append] at hcons
        have hdigit := hwidth digit (by rw [hdigits]; exact List.mem_cons_self)
        rw [(List.cons.inj hcons).1, hc] at hdigit
        exact absurd hdigit (by decide)
    rw [readWidth, if_neg hstar, ← hcons, htake, hdrop]

/-- Behind the flags stands another character. -/
theorem exists_tail_eq_cons (d : Directive) (s : Bytes) :
    ∃ c rest, c ∉ ascii "-+ #0" ∧ d.tail ++ s = c :: rest := by
  obtain ⟨b, rest, hends, hsize⟩ := exists_size_eq_cons d.conv s
  have htail : d.tail ++ s = (if d.width = 0 then [] else decimal d.width) ++ b :: rest := by
    rw [← hsize, Directive.tail]
    simp
  rw [htail]
  by_cases hzero : d.width = 0
  · exact ⟨b, rest, hends.flag, by rw [if_pos hzero, List.nil_append]⟩
  · obtain ⟨digit, ds, hlow, hhigh, heq⟩ := exists_decimal_eq_cons (Nat.pos_of_ne_zero hzero)
    refine ⟨UInt8.ofNat (48 + digit), ds ++ b :: rest, ?_, ?_⟩
    · interval_cases digit <;> decide +kernel
    · rw [if_neg hzero, heq, List.cons_append]

theorem letters_notMem_sizes : ∀ c ∈ letters, c ∉ ascii "hlqLjzt" := by decide +kernel

/-- The library reads a directive to its end. -/
theorem readConversion_directive (hflags : ∀ b ∈ d.flags, b = 45) (s : Bytes) :
    readConversion (d.flags ++ (d.tail ++ s)) = some (d.conversion, s) := by
  obtain ⟨c, rest, hc, htail⟩ := exists_tail_eq_cons d s
  obtain ⟨b, front, hends, hsize⟩ := exists_size_eq_cons d.conv s
  have hall : ∀ c ∈ d.flags, decide (c ∈ ascii "-+ #0") = true := by
    intro c hc
    rw [hflags c hc]
    rfl
  obtain ⟨htakeFlags, hdropFlags⟩ := span_append hall (decide_eq_false hc) rest
  have hprecision : readPrecision ((if d.conv.long then [108] else []) ++ d.conv.letter :: s) =
      (none, (if d.conv.long then [108] else []) ++ d.conv.letter :: s) := by
    rw [hsize, readPrecision, if_neg hends.dot]
  have hlong : ∀ c ∈ (if d.conv.long then [108] else [] : Bytes),
      decide (c ∈ ascii "hlqLjzt") = true := by
    intro c hc
    cases hcase : d.conv.long with
    | true =>
      rw [hcase] at hc
      rw [List.mem_singleton.mp hc]
      rfl
    | false => simp [hcase] at hc
  have hletter := decide_eq_false (letters_notMem_sizes _ (letter_mem d.conv))
  obtain ⟨htakeSize, hdropSize⟩ := span_append hlong hletter s
  rw [readConversion]
  simp only [htail, hdropFlags, htakeFlags]
  rw [← htail, readWidth_tail]
  simp only [hprecision, hdropSize, htakeSize]
  rfl

/-! ### Printing a directive -/

theorem decimalValue_width (d : Directive) : decimalValue d.conversion.width = d.width := by
  unfold Directive.conversion
  by_cases hzero : d.width = 0
  · rw [if_pos hzero, hzero]
    rfl
  · rw [if_neg hzero, decimalValue_decimal]

theorem pad_conversion (d : Directive) (text : Bytes) :
    d.conversion.pad text = padBlanks (45 ∈ d.flags) d.width text := by
  unfold Conversion.pad padBlanks
  rw [decimalValue_width]
  by_cases hleft : 45 ∈ d.flags <;> simp [Directive.conversion, hleft]

theorem stars_conversion (d : Directive) :
    (d.conversion.width ++ d.conversion.precision.getD []).count 42 = 0 := by
  apply List.count_eq_zero_of_not_mem
  unfold Directive.conversion
  by_cases hzero : d.width = 0
  · simp [hzero]
  · simp only [hzero, if_false, Option.getD_none, List.append_nil]
    exact fun hmem => absurd (decimal_isDigit hmem).1 (by decide)

theorem output_eq_write {c : Conversion} (hpercent : c.specifier ≠ percent)
    (hcount : c.specifier ≠ 110) (before args : List Argument) (a : Argument) :
    c.output (renderArguments (before ++ [a] ++ args)) before.length = c.write a := by
  rw [Conversion.output, if_neg hpercent, if_neg hcount]
  simp [renderArguments]

/-- Without other flags than `-` a signed number is padded with blanks, as its text is. -/
theorem integerText_signed {n : Int} (hflags : ∀ b ∈ d.flags, b = 45) :
    integerText (45 ∈ d.flags) (48 ∈ d.flags) d.width (signText d.flags n) (decimal n.natAbs) =
      padBlanks (45 ∈ d.flags) d.width (printInt n) := by
  have hnot : ∀ b : UInt8, b ≠ 45 → b ∉ d.flags := fun b hb hmem => hb (hflags b hmem)
  have hsign : signText d.flags n ++ decimal n.natAbs = printInt n := by
    unfold signText printInt
    rw [if_neg (hnot 43 (by decide)), if_neg (hnot 32 (by decide))]
    split_ifs <;> rfl
  unfold integerText
  rw [if_neg (by simpa using hnot 48 (by decide)), hsign]

/-- The library takes one argument for a directive, and none for `%%`. -/
theorem arguments_directive (hd : d.Standard) (hcommon : (Piece.directive d).Common) :
    d.conversion.arguments = some (Piece.directive d).argument.length := by
  have hstars := stars_conversion d
  have harg := hd.arg
  obtain ⟨-, hconv⟩ := hcommon
  unfold Directive.ArgStandard at harg
  unfold Conversion.arguments Piece.argument
  cases hcase : d.conv with
  | percent =>
    simp only [hcase] at harg
    simp [Directive.conversion, hcase, Conv.letter, Conv.long, harg]
  | string s =>
    rw [hstars]
    simp [Directive.conversion, hcase, Conv.letter, ascii, percent]
  | signed long n =>
    rw [hstars]
    simp [Directive.conversion, hcase, Conv.letter, ascii, percent]
  | _ => simp [hcase] at hconv

/-- The library writes a directive as the replacement does. -/
theorem output_directive (hd : d.Standard) (hcommon : (Piece.directive d).Common)
    (before args : List Argument) :
    d.conversion.output (renderArguments (before ++ (Piece.directive d).argument ++ args))
      before.length = d.text := by
  have harg := hd.arg
  obtain ⟨hflags, hconv⟩ := hcommon
  unfold Directive.ArgStandard at harg
  unfold Directive.text
  cases hcase : d.conv with
  | percent =>
    have hspecifier : d.conversion.specifier = percent := by rw [Directive.conversion, hcase]; rfl
    exact if_pos hspecifier
  | string s =>
    have hspecifier : d.conversion.specifier = 115 := by rw [Directive.conversion, hcase]; rfl
    simp only [Piece.argument, hcase]
    rw [output_eq_write (by rw [hspecifier]; decide) (by rw [hspecifier]; decide)]
    exact pad_conversion d s
  | signed long n =>
    have hspecifier : d.conversion.specifier = 100 := by rw [Directive.conversion, hcase]; rfl
    simp only [hcase] at harg
    have hsize : (if d.conversion.length = ascii "h" then toInt16 n
        else if d.conversion.length = [] then toInt32 n else n) = n := by
      cases long with
      | true => simp [Directive.conversion, hcase, Conv.long, ascii]
      | false =>
        simp only [Directive.conversion, hcase, Conv.long]
        exact toInt32_of_mem harg
    simp only [Piece.argument, hcase]
    rw [output_eq_write (by rw [hspecifier]; decide) (by rw [hspecifier]; decide),
      Conversion.write, hsize, pad_conversion, integerText_signed hflags]
  | _ => simp [hcase] at hconv

/-! ### Formats -/

theorem map_fst_map_append (front : Bytes) (r : Option (Bytes × Nat)) :
    (r.map fun r => (front ++ r.1, r.2)).map Prod.fst = (r.map Prod.fst).map (front ++ ·) := by
  cases r <;> rfl

/-- The library's expansion of a format of such pieces, from any argument on. -/
theorem expandFrom_pieces {pieces : List Piece} (hpieces : ∀ p ∈ pieces, p.Standard ∧ p.Common)
    (before : List Argument) :
    (expandFrom (renderArguments (before ++ pieces.flatMap Piece.argument))
      (pieces.flatMap Piece.source).length before.length (pieces.flatMap Piece.source)).map
        Prod.fst = some (pieces.flatMap Piece.text) := by
  induction pieces generalizing before with
  | nil => rfl
  | cons p pieces ih =>
    obtain ⟨hstandard, hcommon⟩ := hpieces p List.mem_cons_self
    have hrest := ih (fun q hq => hpieces q (List.mem_cons_of_mem p hq)) (before ++ p.argument)
    rw [List.flatMap_cons, List.flatMap_cons, List.flatMap_cons]
    cases p with
    | plain c =>
      rw [Piece.argument, List.append_nil] at hrest
      rw [Piece.source, Piece.argument, List.nil_append, List.singleton_append, List.length_cons,
        expandFrom, if_neg hstandard.2]
      have hmap := map_fst_map_append [c] (expandFrom
        (renderArguments (before ++ pieces.flatMap Piece.argument))
        (pieces.flatMap Piece.source).length before.length (pieces.flatMap Piece.source))
      rw [hrest] at hmap
      exact hmap
    | directive d =>
      have hsource : (Piece.directive d).source ++ pieces.flatMap Piece.source =
          percent :: (d.flags ++ (d.tail ++ pieces.flatMap Piece.source)) := by
        simp [Piece.source, Directive.source, percent]
      have hfuel : (pieces.flatMap Piece.source).length ≤
          (d.flags ++ (d.tail ++ pieces.flatMap Piece.source)).length := by
        rw [List.length_append, List.length_append]
        omega
      rw [List.append_assoc, List.length_append] at hrest
      rw [hsource, List.length_cons, expandFrom, if_pos rfl,
        readConversion_directive hcommon.1]
      simp only [arguments_directive hstandard hcommon]
      rw [expandFrom_fuel _ hfuel, map_fst_map_append, hrest, ← List.append_assoc,
        output_directive hstandard hcommon]
      rfl

/-- On these formats the replacement leaves the text that the library's function leaves. -/
theorem vsnprintf_eq_library (maxlen : Nat) (hpos : 0 < maxlen) (hmaxlen : maxlen < 2 ^ 31)
    (fmtfp : Nat → Int → Int → DpFlags → Bytes) (pieces : List Piece)
    (hpieces : ∀ p ∈ pieces, p.Standard ∧ p.Common) :
    (vsnprintf maxlen fmtfp (pieces.flatMap Piece.source) (pieces.flatMap Piece.args)).map
        Written.text =
      Libc.vsnprintf maxlen (pieces.flatMap Piece.source) (pieces.flatMap Piece.argument) := by
  have hexpand := expandFrom_pieces hpieces []
  rw [List.nil_append, List.length_nil] at hexpand
  have hstandard : ∀ p ∈ pieces, p.Standard := fun p hp => (hpieces p hp).1
  rw [vsnprintf_text fmtfp hpos hmaxlen hstandard, Libc.vsnprintf, printf, expand, hexpand,
    Option.map_some]

/-- `'%s' = %-4d` with an address and a number. -/
def lookupPieces : List Piece :=
  [.plain 39, .directive ⟨[], 0, .string (ascii "127.0.0.2")⟩, .plain 39, .plain 61,
    .directive ⟨[45], 4, .signed false (-7)⟩]

theorem lookupPieces_standard : ∀ p ∈ lookupPieces, p.Standard ∧ p.Common := by
  intro p hp
  simp only [lookupPieces, List.mem_cons, List.not_mem_nil, or_false] at hp
  rcases hp with rfl | rfl | rfl | rfl | rfl
  · exact ⟨by simp [Piece.Standard, nul], trivial⟩
  · refine ⟨⟨by simp, by simp, by norm_num, ?_⟩, by simp [Piece.Common]⟩
    exact ⟨by decide +kernel, by decide +kernel, by simp⟩
  · exact ⟨by simp [Piece.Standard, nul], trivial⟩
  · exact ⟨by simp [Piece.Standard, nul], trivial⟩
  · refine ⟨⟨by simp [ascii], by simp, by norm_num, ?_⟩, by simp [Piece.Common]⟩
    norm_num [Directive.ArgStandard]

/-- Ten bytes of it. -/
theorem vsnprintf_eq_library_lookup :
    (vsnprintf 10 (fun _ _ _ _ => []) (lookupPieces.flatMap Piece.source)
        (lookupPieces.flatMap Piece.args)).map Written.text =
      Libc.vsnprintf 10 (lookupPieces.flatMap Piece.source)
        (lookupPieces.flatMap Piece.argument) :=
  vsnprintf_eq_library 10 (by decide) (by decide) _ lookupPieces lookupPieces_standard

end Rblpolicyd.Snprintf
