import Mathlib.Data.List.DropRight
import Mathlib.Data.Nat.Digits.Lemmas
import Rblpolicyd.Libc.Bytes

/-!
# Numbers in text: `strtol`, `%d` and decimal output

`strtol` with base 0 skips white space, takes a sign, chooses the base from the
prefix, reads the longest run of digits and saturates at the range of `long`; its
end pointer is what it did not read, the whole text when it read no digit. The
scanner's `%d` is the same with base 10, stored into an `int`.

## Main definitions

* `strtol0` — `strtol(s, &end, 0)`: the value and what the end pointer points at
* `toInt32`, `toUInt64`, `CInt`, `narrow` — conversions between integer types
* `scanInt` — one `%d` conversion of `sscanf`
* `decimal`, `printInt` — the output of `%d`
* `decimalValue` — the value of a run of digits

## Main results

* `readDigits_decimal`, `decimal_injective` — decimal output reads back
* `strtol0_decimal` — also with base 0
* `readDigits_eq`, `readDigits_lt` — what is read is the run of digits, and its value
* `length_eq_of_digits` — a run of digits is its leading zeros and the places of its value
* `length_decimal`, `length_printInt_toInt32` — how long the output is
-/

namespace Libc

/-- The value of a digit or letter in a numeral. -/
def digitValue (b : UInt8) : Option Nat :=
  if 48 ≤ b ∧ b ≤ 57 then some (b.toNat - 48)
  else if 97 ≤ b ∧ b ≤ 122 then some (b.toNat - 87)
  else if 65 ≤ b ∧ b ≤ 90 then some (b.toNat - 55)
  else none

/-- A byte is a digit in the given base. -/
def isDigit (base : Nat) (b : UInt8) : Bool :=
  match digitValue b with
  | none => false
  | some d => d < base

/-- Read the longest run of digits onto an accumulator. -/
def readDigits (base : Nat) : Nat → Bytes → Nat × Bytes
  | acc, [] => (acc, [])
  | acc, b :: s =>
    match digitValue b with
    | none => (acc, b :: s)
    | some d => if d < base then readDigits base (base * acc + d) s else (acc, b :: s)

/-- An optional sign; `true` for a minus. -/
def readSign : Bytes → Bool × Bytes
  | 45 :: s => (true, s)
  | 43 :: s => (false, s)
  | s => (false, s)

/-- The base that base 0 stands for: `0x` before a hexadecimal digit, else a leading `0`. -/
def readBase : Bytes → Nat × Bytes
  | 48 :: x :: d :: s =>
    if (x == 120 || x == 88) && isDigit 16 d then (16, d :: s) else (8, 48 :: x :: d :: s)
  | 48 :: s => (8, 48 :: s)
  | s => (10, s)

/-- `LONG_MAX` on a 64-bit target. -/
def longMax : Int := 2 ^ 63 - 1

/-- A magnitude with its sign, saturated to `long`. -/
def saturate (negative : Bool) (n : Nat) : Int :=
  if negative then max (-(n : Int)) (-longMax - 1) else min (n : Int) longMax

/-- The digits of a numeral in a given base, after the sign; `none` without a digit. -/
def readMagnitude (base : Nat) (s : Bytes) : Option (Nat × Bytes) :=
  match s with
  | [] => none
  | b :: _ => if isDigit base b then some (readDigits base 0 s) else none

/-- `strtol(s, &end, 0)`: the value, and what the end pointer points at. -/
def strtol0 (s : Bytes) : Int × Bytes :=
  let (negative, t) := readSign (s.dropWhile isspace)
  let (base, u) := readBase t
  match readMagnitude base u with
  | none => (0, s)
  | some (n, rest) => (saturate negative n, rest)

/-- A 64-bit value stored into an `int`. -/
def toInt32 (n : Int) : Int := n.bmod (2 ^ 32)

/-- One `%d` conversion of `sscanf`: the stored `int` and the rest of the text. -/
def scanInt (s : Bytes) : Option (Int × Bytes) :=
  let (negative, t) := readSign (s.dropWhile isspace)
  match readMagnitude 10 t with
  | none => none
  | some (n, rest) => some (toInt32 (saturate negative n), rest)

/-- The value of a run of decimal digits. -/
def decimalValue (digits : Bytes) : Nat := digits.foldl (fun n b => 10 * n + (b.toNat - 48)) 0

/-- Decimal output of a natural number. -/
def decimal (n : Nat) : Bytes :=
  if n = 0 then [48] else (Nat.digits 10 n).reverse.map fun d => UInt8.ofNat (48 + d)

/-- Output of `%d`. -/
def printInt (n : Int) : Bytes :=
  if n < 0 then 45 :: decimal n.natAbs else decimal n.natAbs

/-! ### White space before a numeral -/

theorem dropWhile_append_of_all {p : UInt8 → Bool} {gap : Bytes} (h : ∀ b ∈ gap, p b = true)
    (s : Bytes) : (gap ++ s).dropWhile p = s.dropWhile p := by
  induction gap with
  | nil => rfl
  | cons b gap ih =>
    rw [List.cons_append, List.dropWhile_cons_of_pos (h b (List.mem_cons_self ..))]
    exact ih fun c hc => h c (List.mem_cons_of_mem _ hc)

/-- A numeral read to its end with a value other than 0 is read alike with or without
the white space before it. -/
theorem strtol0_dropWhile_iff {s : Bytes} {n : Int} (hn : n ≠ 0) :
    strtol0 (s.dropWhile isspace) = (n, []) ↔ strtol0 s = (n, []) := by
  have hidem : (s.dropWhile isspace).dropWhile isspace = s.dropWhile isspace :=
    List.dropWhile_idempotent isspace s
  simp only [strtol0, hidem]
  cases readMagnitude (readBase (readSign (s.dropWhile isspace)).2).1
      (readBase (readSign (s.dropWhile isspace)).2).2 with
  | none => simp [Ne.symm hn]
  | some r => simp

/-! ### Decimal output -/

/-- The digit of a value below 10 reads back as that value. -/
theorem digitValue_ofNat {d : Nat} (hd : d < 10) : digitValue (UInt8.ofNat (48 + d)) = some d := by
  interval_cases d <;> decide

/-- Digits are read from the most significant one on. -/
theorem readDigits_digits {ds : List Nat} (hds : ∀ d ∈ ds, d < 10) (acc : Nat) (s : Bytes) :
    readDigits 10 acc (ds.reverse.map (fun d => UInt8.ofNat (48 + d)) ++ s) =
      readDigits 10 (10 ^ ds.length * acc + Nat.ofDigits 10 ds) s := by
  induction ds generalizing s with
  | nil => simp
  | cons d ds ih =>
    have hd : d < 10 := hds d (List.mem_cons_self ..)
    rw [List.reverse_cons, List.map_append, List.append_assoc,
      ih fun c hc => hds c (List.mem_cons_of_mem _ hc)]
    simp only [List.map_cons, List.map_nil, List.cons_append, List.nil_append, readDigits,
      digitValue_ofNat hd, hd, if_true, Nat.ofDigits_cons, List.length_cons]
    congr 1
    ring

/-- Decimal output reads back as the number printed. -/
theorem readDigits_decimal (n : Nat) (s : Bytes) :
    readDigits 10 0 (decimal n ++ s) = readDigits 10 n s := by
  unfold decimal
  split_ifs with hn
  · simp [hn, readDigits, show digitValue 48 = some 0 from rfl]
  · rw [readDigits_digits fun d hd => Nat.digits_lt_base (by norm_num) hd, Nat.ofDigits_digits]
    simp

theorem decimal_injective {m n : Nat} (h : decimal m = decimal n) : m = n := by
  have hm := readDigits_decimal m []
  have hn := readDigits_decimal n []
  rw [h, hn] at hm
  simpa [readDigits] using hm.symm

/-- Decimal output is made of digits. -/
theorem decimal_isDigit {n : Nat} {b : UInt8} (hb : b ∈ decimal n) : 48 ≤ b ∧ b ≤ 57 := by
  unfold decimal at hb
  split_ifs at hb with hn
  · obtain rfl := List.mem_singleton.mp hb
    decide
  · obtain ⟨d, hd, rfl⟩ := List.mem_map.mp hb
    have hlt : d < 10 := Nat.digits_lt_base (by norm_num) (List.mem_reverse.mp hd)
    interval_cases d <;> decide

/-! ### Runs of digits -/

/-- The digits that are read are the longest run of digits. -/
theorem readDigits_eq (base acc : Nat) (s : Bytes) :
    readDigits base acc s =
      ((readDigits base acc (s.takeWhile (isDigit base))).1, s.dropWhile (isDigit base)) := by
  induction s generalizing acc with
  | nil => rfl
  | cons b s ih =>
    cases hvalue : digitValue b with
    | none =>
      have hdigit : isDigit base b = false := by simp [isDigit, hvalue]
      rw [List.takeWhile_cons_of_neg (by simp [hdigit]),
        List.dropWhile_cons_of_neg (by simp [hdigit])]
      simp [readDigits, hvalue]
    | some d =>
      by_cases hd : d < base
      · have hdigit : isDigit base b = true := by simp [isDigit, hvalue, hd]
        rw [List.takeWhile_cons_of_pos hdigit, List.dropWhile_cons_of_pos hdigit]
        simp only [readDigits, hvalue, hd, if_true]
        exact ih _
      · have hdigit : isDigit base b = false := by simp [isDigit, hvalue, hd]
        rw [List.takeWhile_cons_of_neg (by simp [hdigit]),
          List.dropWhile_cons_of_neg (by simp [hdigit])]
        simp [readDigits, hvalue, hd]

theorem readMagnitude_eq (base : Nat) (s : Bytes) :
    readMagnitude base s =
      if s.takeWhile (isDigit base) = [] then none
      else some ((readDigits base 0 (s.takeWhile (isDigit base))).1,
        s.dropWhile (isDigit base)) := by
  cases s with
  | nil => rfl
  | cons b s =>
    by_cases hb : isDigit base b = true
    · have hne : (b :: s).takeWhile (isDigit base) ≠ [] := by simp [hb]
      rw [if_neg hne, readMagnitude, if_pos hb, readDigits_eq]
    · have hnil : (b :: s).takeWhile (isDigit base) = [] := List.takeWhile_cons_of_neg hb
      rw [if_pos hnil, readMagnitude, if_neg hb]

/-- A number has no more digits than it is written with. -/
theorem readDigits_lt {base : Nat} (acc : Nat) {s : Bytes} (hs : ∀ b ∈ s, isDigit base b = true) :
    (readDigits base acc s).1 < base ^ s.length * (acc + 1) := by
  induction s generalizing acc with
  | nil => simp [readDigits]
  | cons b s ih =>
    have hb := hs b List.mem_cons_self
    cases hvalue : digitValue b with
    | none => simp [isDigit, hvalue] at hb
    | some d =>
      have hd : d < base := by simpa [isDigit, hvalue] using hb
      have hrest := ih (base * acc + d) fun c hc => hs c (List.mem_cons_of_mem b hc)
      simp only [readDigits, hvalue, hd, if_true]
      calc (readDigits base (base * acc + d) s).1
          < base ^ s.length * (base * acc + d + 1) := hrest
        _ ≤ base ^ s.length * (base * (acc + 1)) := by
          apply Nat.mul_le_mul_left
          rw [Nat.mul_add]
          omega
        _ = base ^ (b :: s).length * (acc + 1) := by
          rw [List.length_cons, pow_succ]
          ring

/-- The digits that are read only add to what has been read. -/
theorem le_readDigits {base : Nat} (acc : Nat) {s : Bytes} (hs : ∀ b ∈ s, isDigit base b = true) :
    base ^ s.length * acc ≤ (readDigits base acc s).1 := by
  induction s generalizing acc with
  | nil => simp [readDigits]
  | cons b s ih =>
    have hb := hs b List.mem_cons_self
    cases hvalue : digitValue b with
    | none => simp [isDigit, hvalue] at hb
    | some d =>
      have hd : d < base := by simpa [isDigit, hvalue] using hb
      have hrest := ih (base * acc + d) fun c hc => hs c (List.mem_cons_of_mem b hc)
      simp only [readDigits, hvalue, hd, if_true]
      have hpow : base ^ (b :: s).length * acc = base ^ s.length * (base * acc) := by
        rw [List.length_cons, pow_succ]
        ring
      calc base ^ (b :: s).length * acc
          = base ^ s.length * (base * acc) := hpow
        _ ≤ base ^ s.length * (base * acc + d) := Nat.mul_le_mul_left _ (Nat.le_add_right _ _)
        _ ≤ (readDigits base (base * acc + d) s).1 := hrest

/-- The decimal digits. -/
theorem isDigit_ten_iff {b : UInt8} : isDigit 10 b = true ↔ 48 ≤ b ∧ b ≤ 57 := by
  unfold isDigit digitValue
  split_ifs with hdigit hlower hupper
  · have hlt : b.toNat ≤ 57 := UInt8.le_iff_toNat_le.mp hdigit.2
    simp only [hdigit, and_self, decide_eq_true_eq, iff_true]
    omega
  · have hge : 97 ≤ b.toNat := UInt8.le_iff_toNat_le.mp hlower.1
    simp only [hdigit, decide_eq_true_eq, iff_false]
    omega
  · have hge : 65 ≤ b.toNat := UInt8.le_iff_toNat_le.mp hupper.1
    simp only [hdigit, decide_eq_true_eq, iff_false]
    omega
  · simp [hdigit]

/-- A run of decimal digits is read as its value. -/
theorem readDigits_eq_decimalValue {s : Bytes} (hs : ∀ b ∈ s, isDigit 10 b = true) :
    (readDigits 10 0 s).1 = decimalValue s := by
  have hfold : ∀ acc, (readDigits 10 acc s).1 =
      s.foldl (fun n b => 10 * n + (b.toNat - 48)) acc := by
    induction s with
    | nil => exact fun acc => rfl
    | cons b s ih =>
      intro acc
      have hb := hs b List.mem_cons_self
      have hrange := isDigit_ten_iff.mp hb
      have hvalue : digitValue b = some (b.toNat - 48) := if_pos hrange
      have hlt : b.toNat - 48 < 10 := by simpa [isDigit, hvalue] using hb
      simp only [readDigits, hvalue, hlt, if_true, List.foldl_cons]
      exact ih (fun c hc => hs c (List.mem_cons_of_mem b hc)) _
  exact hfold 0

/-- The length of a run of decimal digits: its zeros in front of another digit, and the decimal
places of its value. -/
theorem length_eq_of_digits {s : Bytes} (hs : ∀ b ∈ s, isDigit 10 b = true) (hne : s ≠ []) :
    s.length =
      (s.dropLast.takeWhile (· = 48)).length + (Nat.log 10 (readDigits 10 0 s).1 + 1) := by
  induction s with
  | nil => exact absurd rfl hne
  | cons b s ih =>
    have hrest : ∀ c ∈ s, isDigit 10 c = true := fun c hc => hs c (List.mem_cons_of_mem b hc)
    have hb : 48 ≤ b ∧ b ≤ 57 := isDigit_ten_iff.mp (hs b List.mem_cons_self)
    have hvalue : digitValue b = some (b.toNat - 48) := if_pos hb
    have hlt : b.toNat - 48 < 10 := by
      have hle := UInt8.le_iff_toNat_le.mp hb.2
      change b.toNat ≤ 57 at hle
      omega
    have hread : readDigits 10 0 (b :: s) = readDigits 10 (b.toNat - 48) s := by
      simp only [readDigits, hvalue, hlt, if_true, Nat.mul_zero, Nat.zero_add]
    rw [hread]
    cases s with
    | nil => simp [readDigits, Nat.log_of_lt hlt]
    | cons c s =>
      by_cases hzero : b = 48
      · subst hzero
        have hlength := ih hrest (List.cons_ne_nil c s)
        have hcons : (48 :: c :: s).length = (c :: s).length + 1 := rfl
        rw [hcons, hlength, List.dropLast_cons_cons, List.takeWhile_cons_of_pos (by decide),
          List.length_cons]
        change _ = _ + (Nat.log 10 (readDigits 10 0 (c :: s)).1 + 1)
        omega
      · -- the first digit decides how many places there are
        have hpos : 1 ≤ b.toNat - 48 := by
          have hge := UInt8.le_iff_toNat_le.mp hb.1
          change 48 ≤ b.toNat at hge
          have hne : b.toNat ≠ 48 := fun heq => hzero (UInt8.toNat_inj.mp heq)
          omega
        have hlow := le_readDigits (b.toNat - 48) hrest
        have hhigh := readDigits_lt (b.toNat - 48) hrest
        have hlog : Nat.log 10 (readDigits 10 (b.toNat - 48) (c :: s)).1 = (c :: s).length := by
          apply Nat.log_eq_of_pow_le_of_lt_pow
          · exact (Nat.le_mul_of_pos_right _ hpos).trans hlow
          · refine hhigh.trans_le ?_
            rw [pow_succ]
            exact Nat.mul_le_mul_left _ (by omega)
        rw [hlog, List.dropLast_cons_cons, List.takeWhile_cons_of_neg (by simpa using hzero)]
        simp

/-! ### Decimal output with a base that is found out -/

/-- The first digit of a number other than 0. -/
theorem exists_decimal_eq_cons {n : Nat} (hn : 0 < n) :
    ∃ d s, 1 ≤ d ∧ d ≤ 9 ∧ decimal n = UInt8.ofNat (48 + d) :: s := by
  have hne : Nat.digits 10 n ≠ [] := Nat.digits_ne_nil_iff_ne_zero.mpr hn.ne'
  have hlast := Nat.getLast_digit_ne_zero 10 hn.ne'
  have hlt : (Nat.digits 10 n).getLast hne < 10 :=
    Nat.digits_lt_base (by norm_num) (List.getLast_mem hne)
  have hreverse : (Nat.digits 10 n).reverse =
      (Nat.digits 10 n).getLast hne :: (Nat.digits 10 n).dropLast.reverse := by
    conv_lhs => rw [← List.dropLast_append_getLast hne]
    simp
  refine ⟨(Nat.digits 10 n).getLast hne,
    (Nat.digits 10 n).dropLast.reverse.map fun d => UInt8.ofNat (48 + d), ?_, ?_, ?_⟩
  · omega
  · omega
  · rw [decimal, if_neg hn.ne', hreverse, List.map_cons]

/-- A number that begins with a digit other than 0 has no sign and is decimal. -/
theorem strtol0_digit {d : Nat} (hlow : 1 ≤ d) (hhigh : d ≤ 9) (s : Bytes) :
    strtol0 (UInt8.ofNat (48 + d) :: s) =
      (saturate false (readDigits 10 0 (UInt8.ofNat (48 + d) :: s)).1,
        (readDigits 10 0 (UInt8.ofNat (48 + d) :: s)).2) := by
  have hspace : isspace (UInt8.ofNat (48 + d)) = false := by interval_cases d <;> rfl
  have hdigit : isDigit 10 (UInt8.ofNat (48 + d)) = true := by interval_cases d <;> rfl
  have hsign : readSign (UInt8.ofNat (48 + d) :: s) = (false, UInt8.ofNat (48 + d) :: s) := by
    interval_cases d <;> rfl
  have hbase : readBase (UInt8.ofNat (48 + d) :: s) = (10, UInt8.ofNat (48 + d) :: s) := by
    interval_cases d <;> rfl
  have hskip : (UInt8.ofNat (48 + d) :: s).dropWhile isspace = UInt8.ofNat (48 + d) :: s :=
    List.dropWhile_cons_of_neg (by rw [hspace]; exact Bool.false_ne_true)
  simp only [strtol0, hskip, hsign, hbase, readMagnitude, hdigit, if_true]

/-- Decimal output of a positive `long` reads back with base 0. -/
theorem strtol0_decimal {n : Nat} (hn : 0 < n) (hmax : (n : Int) ≤ longMax) :
    strtol0 (decimal n) = ((n : Int), ([] : Bytes)) := by
  obtain ⟨d, s, hlow, hhigh, heq⟩ := exists_decimal_eq_cons hn
  have hread := readDigits_decimal n []
  rw [List.append_nil] at hread
  rw [heq, strtol0_digit hlow hhigh, ← heq, hread]
  simp only [readDigits, saturate, Bool.false_eq_true, if_false, Prod.mk.injEq, and_true]
  exact min_eq_left hmax

/-! ### The length of the output -/

theorem length_decimal_le_iff {n k : Nat} (hk : 0 < k) : (decimal n).length ≤ k ↔ n < 10 ^ k := by
  unfold decimal
  split_ifs with hn
  · subst hn
    have hpow : 0 < 10 ^ k := by positivity
    simp only [List.length_singleton]
    omega
  · rw [List.length_map, List.length_reverse, Nat.digits_length_le_iff (by norm_num)]

/-- The decimal places of a number. -/
theorem length_decimal (n : Nat) : (decimal n).length = Nat.log 10 n + 1 := by
  unfold decimal
  split_ifs with hn
  · rw [hn]
    rfl
  · rw [List.length_map, List.length_reverse, Nat.length_digits 10 n (by norm_num) hn]

theorem toInt32_eq (n : Int) :
    toInt32 n = if n % 2 ^ 32 < 2 ^ 31 then n % 2 ^ 32 else n % 2 ^ 32 - 2 ^ 32 := by
  rw [toInt32, Int.bmod_def]
  norm_num

theorem toInt32_mem (n : Int) : -2 ^ 31 ≤ toInt32 n ∧ toInt32 n < 2 ^ 31 := by
  rw [toInt32_eq]
  split_ifs with hn
  · omega
  · omega

/-- An `int` holds a number below `INT_MAX`, and what `strtol` makes of it. -/
theorem toInt32_saturate_false {n : Nat} (hn : n < 2 ^ 31) : toInt32 (saturate false n) = n := by
  have hmin : saturate false n = n := by
    simp only [saturate, Bool.false_eq_true, if_false, longMax]
    omega
  rw [hmin, toInt32_eq]
  omega

theorem toInt32_saturate_true {n : Nat} (hn : n ≤ 2 ^ 31) : toInt32 (saturate true n) = -n := by
  have hmax : saturate true n = -n := by
    simp only [saturate, if_true, longMax]
    omega
  rw [hmax, toInt32_eq]
  omega

theorem toInt32_of_mem {n : Int} (h : -2 ^ 31 ≤ n ∧ n < 2 ^ 31) : toInt32 n = n := by
  rw [toInt32_eq]
  split_ifs <;> omega

theorem toInt32_add (m n : Int) : toInt32 (toInt32 m + n) = toInt32 (m + n) := by
  simp [toInt32]

/-- What two numbers that differ by a multiple of the range are converted to. -/
theorem toInt32_congr {m n : Int} (h : m % 2 ^ 32 = n % 2 ^ 32) : toInt32 m = toInt32 n := by
  rw [toInt32_eq, toInt32_eq, h]

/-- Conversion to `unsigned long long`. -/
def toUInt64 (n : Int) : Int := n % 2 ^ 64

theorem toInt32_toUInt64 (n : Int) : toInt32 (toUInt64 n) = toInt32 n := by
  apply toInt32_congr
  rw [toUInt64]
  omega

/-- The values of an `int`. -/
abbrev CInt := {n : Int // -2 ^ 31 ≤ n ∧ n < 2 ^ 31}

/-- Conversion to `int`. -/
def narrow (n : Int) : CInt := ⟨toInt32 n, toInt32_mem n⟩

theorem length_printInt (n : Int) :
    (printInt n).length = (decimal n.natAbs).length + if n < 0 then 1 else 0 := by
  unfold printInt
  split_ifs with hn
  · rfl
  · rfl

/-- An `int` is printed with at most ten digits and a minus sign. -/
theorem length_printInt_toInt32 (n : Int) : (printInt (toInt32 n)).length ≤ 11 := by
  have hmem := toInt32_mem n
  have hlength : (decimal (toInt32 n).natAbs).length ≤ 10 :=
    (length_decimal_le_iff (by norm_num)).mpr (by omega)
  rw [length_printInt]
  split_ifs with hneg
  · omega
  · omega

end Libc
