import Rblpolicyd.Snprintf.Pieces

/-!
# The running time in the log

`stats_log` writes how long the daemon has been running in weeks, days, hours, minutes and
seconds. The text never needs the whole of its buffer, and tells the number of seconds:
reading the five numbers back gives it again.

## Main definitions

* `splitSecs`, `secsPieces` — the five numbers, and the format with them
* `fmtSecs` — the text that is logged
* `readSecs` — the number of seconds that a text stands for

## Main results

* `fmtSecs_eq` — the text
* `readSecs_fmtSecs` — it reads back as the number of seconds, and is short
-/

namespace Rblpolicyd

open Libc Snprintf

/-- `w`, `d`, `h`, `m` and what is left of `s`. -/
def splitSecs (s : Nat) : Nat × Nat × Nat × Nat × Nat :=
  let w := s / 604800
  let s := s - w * 604800
  let d := s / 86400
  let s := s - d * 86400
  let h := s / 3600
  let s := s - h * 3600
  let m := s / 60
  let s := s - m * 60
  (w, d, h, m, s)

/-- `fmt_secs`. -/
def fmtSecs (fmtfp : Nat → Int → Int → DpFlags → Bytes) (s : Nat) : Option Bytes :=
  let (w, d, h, m, s) := splitSecs s
  (snprintf 127 fmtfp (ascii "%dw%dd%02dh%02dm%02ds")
    [.int w, .int d, .int h, .int m, .int s]).map Prod.fst

/-- Read five numbers with a letter behind each. -/
def readSecs (text : Bytes) : Nat :=
  let (w, text) := readDigits 10 0 text
  let (d, text) := readDigits 10 0 text.tail
  let (h, text) := readDigits 10 0 text.tail
  let (m, text) := readDigits 10 0 text.tail
  let (s, _) := readDigits 10 0 text.tail
  w * 604800 + d * 86400 + h * 3600 + m * 60 + s

/-- A `%d`, with a `0` and the width 2 where there are two digits. -/
def number (twoDigits : Bool) (n : Nat) : Snprintf.Piece :=
  .directive ⟨if twoDigits then [48] else [], if twoDigits then 2 else 0, .signed false n⟩

/-- The format of `fmt_secs` with its arguments. -/
def secsPieces (w d h m s : Nat) : List Snprintf.Piece :=
  [number false w, .plain 119, number false d, .plain 100, number true h, .plain 104,
    number true m, .plain 109, number true s, .plain 115]

variable {fmtfp : Nat → Int → Int → DpFlags → Bytes}

theorem number_standard (twoDigits : Bool) {n : Nat} (hn : n < 2 ^ 31) :
    (number twoDigits n).Standard := by
  refine ⟨?_, ?_, ?_, ?_⟩
  · cases twoDigits <;> simp [ascii]
  · cases twoDigits <;> simp
  · cases twoDigits <;> norm_num
  · simp only [Directive.ArgStandard, Bool.false_eq_true, if_false]
    omega

/-- Two digits where the number has one, and what the number has else. -/
def numberText (twoDigits : Bool) (n : Nat) : Bytes :=
  List.replicate (if twoDigits then 2 - (decimal n).length else 0) 48 ++ decimal n

theorem number_text (twoDigits : Bool) (n : Nat) :
    (number twoDigits n).text = numberText twoDigits n := by
  have hsign : ∀ flags, 43 ∉ flags → 32 ∉ flags →
      Snprintf.signText flags (n : Int) = [] := by
    intro flags hplus hspace
    rw [Snprintf.signText, if_neg (by omega), if_neg hplus, if_neg hspace]
  cases twoDigits with
  | true =>
    simp [number, Snprintf.Piece.text, Directive.text, integerText, hsign, numberText]
  | false =>
    simp [number, Snprintf.Piece.text, Directive.text, integerText, padBlanks, hsign, numberText]

/-- The five numbers, and the bounds of those but the first. -/
theorem splitSecs_spec {s : Nat} (hs : s < 2 ^ 32) :
    ∃ w d h m r, splitSecs s = (w, d, h, m, r) ∧
      w * 604800 + d * 86400 + h * 3600 + m * 60 + r = s ∧
      w < 10 ^ 4 ∧ d < 7 ∧ h < 24 ∧ m < 60 ∧ r < 60 := by
  refine ⟨_, _, _, _, _, rfl, ?_⟩
  omega

theorem length_numberText_le (twoDigits : Bool) {n k : Nat} (hk : 2 ≤ k) (hn : n < 10 ^ k) :
    (numberText twoDigits n).length ≤ k := by
  have hlength := (length_decimal_le_iff (by omega)).mpr hn
  rw [numberText, List.length_append, List.length_replicate]
  split_ifs <;> omega

/-- The text of the five numbers. -/
def secsText (w d h m s : Nat) : Bytes :=
  numberText false w ++ 119 :: (numberText false d ++ 100 :: (numberText true h ++ 104 ::
    (numberText true m ++ 109 :: (numberText true s ++ [115]))))

/-- The text of `fmt_secs`: the buffer has room for it. -/
theorem fmtSecs_eq (fmtfp : Nat → Int → Int → DpFlags → Bytes) {s : Nat} (hs : s < 2 ^ 32) :
    ∃ w d h m r, fmtSecs fmtfp s = some (secsText w d h m r) ∧
      w * 604800 + d * 86400 + h * 3600 + m * 60 + r = s ∧
      (secsText w d h m r).length ≤ 17 := by
  obtain ⟨w, d, h, m, r, hsplit, hsum, hw, hd, hh, hm, hr⟩ := splitSecs_spec hs
  have hstandard : ∀ p ∈ secsPieces w d h m r, p.Standard := by
    intro p hp
    simp only [secsPieces, List.mem_cons, List.not_mem_nil, or_false] at hp
    rcases hp with rfl | rfl | rfl | rfl | rfl | rfl | rfl | rfl | rfl | rfl
    all_goals first
      | exact number_standard _ (by omega)
      | exact ⟨by decide, by decide⟩
  have htext : (secsPieces w d h m r).flatMap Snprintf.Piece.text = secsText w d h m r := by
    have hplain : ∀ c, (Snprintf.Piece.plain c).text = [c] := fun _ => rfl
    simp [secsPieces, secsText, number_text, hplain]
  have hlength : (secsText w d h m r).length ≤ 17 := by
    have h1 := length_numberText_le false (by norm_num) hw
    have h2 := length_numberText_le false (k := 2) le_rfl (n := d) (by omega)
    have h3 := length_numberText_le true (k := 2) le_rfl (n := h) (by omega)
    have h4 := length_numberText_le true (k := 2) le_rfl (n := m) (by omega)
    have h5 := length_numberText_le true (k := 2) le_rfl (n := r) (by omega)
    simp only [secsText, List.length_append, List.length_cons, List.length_nil]
    omega
  refine ⟨w, d, h, m, r, ?_, hsum, hlength⟩
  have hprint : (vsnprintf 127 fmtfp ((secsPieces w d h m r).flatMap Snprintf.Piece.source)
      ((secsPieces w d h m r).flatMap Snprintf.Piece.args)).map Written.text =
      some (((secsPieces w d h m r).flatMap Snprintf.Piece.text).take 126) :=
    vsnprintf_text fmtfp (by norm_num) (by norm_num) hstandard
  rw [htext, List.take_of_length_le (by omega)] at hprint
  have hcall : fmtSecs fmtfp s = (vsnprintf 127 fmtfp
      ((secsPieces w d h m r).flatMap Snprintf.Piece.source)
      ((secsPieces w d h m r).flatMap Snprintf.Piece.args)).map Written.text := by
    rw [fmtSecs, hsplit]
    simp only [snprintf, Option.map_map]
    rfl
  rw [hcall, hprint]

/-! ### Reading the text -/

theorem readDigits_stop {b : UInt8} (hb : isDigit 10 b = false) (acc : Nat) (s : Bytes) :
    readDigits 10 acc (b :: s) = (acc, b :: s) := by
  unfold isDigit at hb
  rw [readDigits]
  cases hvalue : digitValue b with
  | none => rfl
  | some value =>
    rw [hvalue] at hb
    have hlarge : ¬ value < 10 := by simpa using hb
    simp only [hlarge, if_false]

theorem readDigits_zeros (k : Nat) (s : Bytes) :
    readDigits 10 0 (List.replicate k 48 ++ s) = readDigits 10 0 s := by
  induction k with
  | zero => rfl
  | succ k ih =>
    rw [List.replicate_succ, List.cons_append, readDigits]
    exact ih

theorem readDigits_numberText (twoDigits : Bool) (n : Nat) {b : UInt8}
    (hb : isDigit 10 b = false) (s : Bytes) :
    readDigits 10 0 (numberText twoDigits n ++ b :: s) = (n, b :: s) := by
  rw [numberText, List.append_assoc, readDigits_zeros, readDigits_decimal, readDigits_stop hb]

theorem readSecs_secsText (w d h m s : Nat) :
    readSecs (secsText w d h m s) = w * 604800 + d * 86400 + h * 3600 + m * 60 + s := by
  unfold readSecs secsText
  simp only [readDigits_numberText false w (b := 119) (by decide), List.tail_cons,
    readDigits_numberText false d (b := 100) (by decide),
    readDigits_numberText true h (b := 104) (by decide),
    readDigits_numberText true m (b := 109) (by decide),
    readDigits_numberText true s (b := 115) (by decide)]

/-- The text of a running time is short, and stands for it. -/
theorem readSecs_fmtSecs (fmtfp : Nat → Int → Int → DpFlags → Bytes) (s : Nat)
    (hs : s < 2 ^ 32) :
    ∃ text, fmtSecs fmtfp s = some text ∧ text.length ≤ 17 ∧ readSecs text = s := by
  obtain ⟨w, d, h, m, r, htext, hsum, hlength⟩ := fmtSecs_eq fmtfp hs
  exact ⟨_, htext, hlength, by rw [readSecs_secsText, hsum]⟩

/-- Two weeks and a few hours. -/
theorem readSecs_fmtSecs_twoWeeks :
    ∃ text, fmtSecs (fun _ _ _ _ => []) 1220405 = some text ∧ text.length ≤ 17 ∧
      readSecs text = 1220405 :=
  readSecs_fmtSecs _ 1220405 (by norm_num)

end Rblpolicyd
