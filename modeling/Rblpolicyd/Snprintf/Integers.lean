import Rblpolicyd.Snprintf.Dopr

/-!
# The digits of the replacement `snprintf`

The digits of an integer are collected from the lowest one on, in an array with room for 19
of them and a NUL. A number with more digits loses its highest ones: in base 16 every
`unsigned long` fits, in base 10 those from `10 ^ 19` on do not, and in base 8 those from
`2 ^ 57` on.

## Main definitions

* `standardDigit`, `numeral` — a digit, and a number in a base, as the standard prints them

## Main results

* `convert_reverse` — the digits that are printed
* `fmtint_complete_iff` — when they are all of them
* `fmtint_eq` — an integer with a width, a sign, and without a precision
-/

namespace Rblpolicyd.Snprintf

open Libc

/-- A digit, which is a letter from ten on. -/
def standardDigit (caps : Bool) (d : Nat) : UInt8 :=
  if d < 10 then UInt8.ofNat (48 + d) else UInt8.ofNat ((if caps then 55 else 87) + d)

/-- A number in a base, from the highest digit on. -/
def numeral (caps : Bool) (base n : Nat) : Bytes :=
  if n = 0 then [48] else (Nat.digits base n).reverse.map (standardDigit caps)

variable {caps : Bool} {base n : Nat}

/-- The literals have the digits below sixteen. -/
theorem digitChar_eq (caps : Bool) {d : Nat} (hd : d < 16) :
    digitChar caps d = standardDigit caps d := by
  have hall : ∀ caps, ∀ d < 16, digitChar caps d = standardDigit caps d := by decide +kernel
  exact hall caps d hd

theorem numeral_ten (caps : Bool) (n : Nat) : numeral caps 10 n = decimal n := by
  unfold numeral decimal
  split_ifs with hn
  · rfl
  · apply List.map_congr_left
    intro d hd
    exact if_pos (Nat.digits_lt_base (by norm_num) (List.mem_reverse.mp hd))

theorem length_numeral_le_iff (hbase : 1 < base) {k : Nat} (hk : 0 < k) :
    (numeral caps base n).length ≤ k ↔ n < base ^ k := by
  unfold numeral
  split_ifs with hn
  · subst hn
    have hpow : 0 < base ^ k := Nat.pow_pos (by omega)
    simp only [List.length_singleton]
    omega
  · rw [List.length_map, List.length_reverse, Nat.digits_length_le_iff hbase]

theorem reverse_numeral (hbase : 1 < base) (hsmall : base ≤ 16) (hn : 0 < n) :
    (numeral caps base n).reverse =
      digitChar caps (n % base) ::
        if n / base = 0 then [] else (numeral caps base (n / base)).reverse := by
  have hdigit : n % base < 16 := (Nat.mod_lt n (by omega)).trans_le hsmall
  rw [digitChar_eq caps hdigit]
  unfold numeral
  rw [if_neg hn.ne', Nat.digits_def' hbase hn]
  split_ifs with hnext
  · simp [hnext]
  · simp

/-- The loop keeps the lowest digits. -/
theorem convertLoop_eq (hbase : 1 < base) (hsmall : base ≤ 16) (places : Nat) (n : Nat) :
    convertLoop caps base places n = (numeral caps base n).reverse.take places := by
  induction places generalizing n with
  | zero => rfl
  | succ places ih =>
    rw [convertLoop]
    by_cases hn : n = 0
    · subst hn
      simp [numeral, digitChar_eq caps (by norm_num : 0 < 16), standardDigit]
    · rw [reverse_numeral hbase hsmall (Nat.pos_of_ne_zero hn), List.take_succ_cons]
      congr 1
      split_ifs
      · rw [List.take_nil]
      · exact ih (n / base)

theorem convert_eq_take (hbase : 1 < base) (hsmall : base ≤ 16) (n : Nat) :
    convert caps base n = (numeral caps base n).reverse.take 19 := by
  unfold convert
  rw [convertLoop_eq hbase hsmall]
  simp only
  split_ifs with hfull
  · rw [List.take_take]
    rfl
  · have hshort : (numeral caps base n).reverse.length ≤ 19 := by
      rw [List.length_take] at hfull
      omega
    rw [List.take_of_length_le hshort, List.take_of_length_le (hshort.trans (by norm_num))]

/-- A number that fits is printed with all its digits. -/
theorem convert_reverse (caps : Bool) (hbase : 1 < base) (hsmall : base ≤ 16)
    (hn : n < base ^ 19) :
    (convert caps base n).reverse = numeral caps base n := by
  have hshort : (numeral caps base n).reverse.length ≤ 19 := by
    rw [List.length_reverse]
    exact (length_numeral_le_iff hbase (by norm_num)).mpr hn
  rw [convert_eq_take hbase hsmall, List.take_of_length_le hshort, List.reverse_reverse]

/-! ### Integers -/

/-- The padding of a text: blanks behind it with the flag `-`, and before it without. -/
def padBlanks (left : Bool) (width : Nat) (text : Bytes) : Bytes :=
  let blanks := List.replicate (width - text.length) 32
  if left then text ++ blanks else blanks ++ text

/-- An integer as the standard prints it in a width. -/
def integerText (left zero : Bool) (width : Nat) (sign digits : Bytes) : Bytes :=
  if zero then
    sign ++ List.replicate (width - (sign.length + digits.length)) 48 ++ digits
  else padBlanks left width (sign ++ digits)

/-- The `uvalue` of `fmtint`, before its digits are taken. -/
def magnitude (value : Int) (flags : DpFlags) : Nat :=
  ((if !flags.unsigned && value < 0 then -value else value) % 2 ^ 64).toNat

/-- Without a precision, and without a `0` that a `-` overrules, an integer with all its
digits is printed as the standard prints it. -/
theorem fmtint_eq {value : Int} {flags : DpFlags} (hbase : 1 < base) (hsmall : base ≤ 16)
    (width : Nat)
    (hflags : flags.zero = true → flags.minus = false)
    (hvalue : magnitude value flags < base ^ 19) :
    fmtint value base width (-1) flags =
      integerText flags.minus flags.zero width (signvalue value flags)
        (numeral flags.up base (magnitude value flags)) := by
  have hdigits := convert_reverse flags.up hbase hsmall hvalue
  have hlength : (convert flags.up base (magnitude value flags)).length =
      (numeral flags.up base (magnitude value flags)).length := by
    rw [← hdigits, List.length_reverse]
  unfold fmtint
  rw [← magnitude]
  simp only [Int.reduceNeg, Int.reduceLT, if_true, hdigits, hlength]
  generalize numeral flags.up base (magnitude value flags) = digits
  generalize signvalue value flags = sign
  have hzpad : max 0 ((0 : Int) - digits.length) = 0 := by omega
  obtain ⟨pad, hpad, hnat⟩ : ∃ pad : Nat,
      max 0 ((width : Int) - max 0 (digits.length : Int) - sign.length) = pad ∧
        pad = width - (sign.length + digits.length) := ⟨_, by omega, rfl⟩
  rw [hzpad, hpad]
  unfold integerText padBlanks
  cases hzero : flags.zero with
  | true => simp [hflags hzero, hnat]
  | false => cases flags.minus <;> simp [hnat]

/-- In a base for which there are digits, an unsigned integer is printed with all of its own
exactly when it has no more than 19 of them. -/
theorem fmtint_complete_iff (base value : Nat) (hbase : 1 < base) (hsmall : base ≤ 16)
    (hvalue : value < 2 ^ 64) :
    fmtint value base 0 (-1) { unsigned := true } = numeral false base value ↔
      value < base ^ 19 := by
  have hmagnitude : magnitude value { unsigned := true } = value := by
    unfold magnitude
    simp only [Bool.not_true, Bool.false_and, Bool.false_eq_true, if_false]
    omega
  have hprinted : fmtint value base 0 (-1) { unsigned := true } =
      (convert false base value).reverse := by
    unfold fmtint
    rw [← magnitude, hmagnitude]
    simp [signvalue]
  rw [hprinted]
  constructor
  · intro h
    apply (length_numeral_le_iff hbase (by norm_num : 0 < 19)).mp
    rw [← h, List.length_reverse, convert_eq_take hbase hsmall]
    exact List.length_take_le _ _
  · exact convert_reverse false hbase hsmall

/-- The largest `unsigned long` has twenty decimal digits. -/
theorem fmtint_complete_iff_largest :
    fmtint (2 ^ 64 - 1 : Nat) 10 0 (-1) { unsigned := true } = numeral false 10 (2 ^ 64 - 1) ↔
      2 ^ 64 - 1 < 10 ^ 19 :=
  fmtint_complete_iff 10 (2 ^ 64 - 1) (by norm_num) (by norm_num) (by norm_num)

end Rblpolicyd.Snprintf
