import Rblpolicyd.Libc.Numerals

/-!
# The pid file: `pid_get` and `pid_write`

`pid_write` prints the pid with `%ld` into a file it truncates; `pid_get` reads the
digits a file begins with, one `10 * pid + (c - '0')` for each, in an `int`. The
reader has no bound on the digits, so a long run wraps.

## Main definitions

* `pidGetLoop`, `pidGet` — the reader
* `pidValues` — what the reader computes on the way, before it is stored
* `WriteOutcome`, `pidWrite` — what is returned and the file that is left

## Main results

* `pidGet_eq` — the reader returns the value of the leading digits, stored into an `int`
* `pidValues_le` — no value on the way is above the value of the leading digits
* `pidGet_pidWrite` — a pid that was written is read back, without a wrap
-/

namespace Rblpolicyd

open Libc

/-! ### Reading -/

/-- `10 * pid + (c - '0')`, before it is stored into `pid`. -/
def pidValue (pid : Int) (c : UInt8) : Int := 10 * pid + ((c.toNat : Int) - 48)

/-- The `while` loop of `pid_get` over what `fgetc` gives before `EOF`. -/
def pidGetLoop : Int → Bytes → Int
  | pid, [] => pid
  | pid, c :: rest =>
    if 48 ≤ c ∧ c ≤ 57 then pidGetLoop (toInt32 (pidValue pid c)) rest else pid

/-- `pid_get`; `none` for a file that does not open. -/
def pidGet : Option Bytes → Int
  | none => -1
  | some content => pidGetLoop 0 content

/-- The values the loop computes, a product and a sum for each digit. -/
def pidValues : Int → Bytes → List Int
  | _, [] => []
  | pid, c :: rest =>
    if 48 ≤ c ∧ c ≤ 57 then
      10 * pid :: pidValue pid c :: pidValues (toInt32 (pidValue pid c)) rest
    else []

/-- The byte after an accumulator: a digit is read onto it, anything else ends the run. -/
theorem readDigits_ten_cons (acc : Nat) (c : UInt8) (rest : Bytes) :
    readDigits 10 acc (c :: rest) =
      if 48 ≤ c ∧ c ≤ 57 then readDigits 10 (10 * acc + (c.toNat - 48)) rest
      else (acc, c :: rest) := by
  split_ifs with hc
  · have hvalue : digitValue c = some (c.toNat - 48) := if_pos hc
    have hlt : c.toNat - 48 < 10 := by
      simpa [isDigit, hvalue] using isDigit_ten_iff.mpr hc
    simp only [readDigits, hvalue, hlt, if_true]
  · have hdigit : ¬ isDigit 10 c = true := fun h => hc (isDigit_ten_iff.mp h)
    rw [readDigits_eq, List.takeWhile_cons_of_neg hdigit, List.dropWhile_cons_of_neg hdigit]
    rfl

theorem pidValue_cast (acc : Nat) {c : UInt8} (hc : 48 ≤ c ∧ c ≤ 57) :
    pidValue acc c = ((10 * acc + (c.toNat - 48) : Nat) : Int) := by
  have hlow : 48 ≤ c.toNat := UInt8.le_iff_toNat_le.mp hc.1
  rw [pidValue]
  omega

/-- The loop keeps the value of the digits read so far, as an `int` holds it. -/
theorem pidGetLoop_eq (acc : Nat) (content : Bytes) :
    pidGetLoop (toInt32 acc) content = toInt32 (readDigits 10 acc content).1 := by
  induction content generalizing acc with
  | nil => rfl
  | cons c rest ih =>
    rw [pidGetLoop, readDigits_ten_cons]
    split_ifs with hc
    · have hstored : toInt32 (pidValue (toInt32 acc) c) =
          toInt32 ((10 * acc + (c.toNat - 48) : Nat) : Int) := by
        rw [← pidValue_cast acc hc]
        apply toInt32_congr
        -- the product of a wrapped value wraps to the same place
        rw [pidValue, pidValue, toInt32_eq]
        split_ifs with hlow
        · omega
        · omega
      rw [hstored]
      exact ih _
    · rfl

/-- `pid_get` returns the value of the leading digits, stored into an `int`. -/
theorem pidGet_eq (content : Bytes) :
    pidGet (some content) = toInt32 (decimalValue (content.takeWhile (isDigit 10))) := by
  have hdigits : ∀ b ∈ content.takeWhile (isDigit 10), isDigit 10 b = true :=
    fun b hb => List.mem_takeWhile_imp hb
  calc pidGet (some content)
      = pidGetLoop (toInt32 (0 : Nat)) content := rfl
    _ = toInt32 (readDigits 10 0 content).1 := pidGetLoop_eq 0 content
    _ = toInt32 (decimalValue (content.takeWhile (isDigit 10))) := by
      rw [readDigits_eq, readDigits_eq_decimalValue hdigits]

/-! ### The values on the way -/

/-- Reading digits never makes the accumulator smaller. -/
theorem le_readDigits_ten (acc : Nat) (content : Bytes) :
    acc ≤ (readDigits 10 acc content).1 := by
  induction content generalizing acc with
  | nil => exact le_rfl
  | cons c rest ih =>
    rw [readDigits_ten_cons]
    split_ifs with hc
    · calc acc ≤ 10 * acc + (c.toNat - 48) := by omega
        _ ≤ (readDigits 10 (10 * acc + (c.toNat - 48)) rest).1 := ih _
    · exact le_rfl

/-- Where the leading digits have a value that an `int` holds, no value on the way is above it. -/
theorem pidValues_le {acc : Nat} {content : Bytes} (h : (readDigits 10 acc content).1 < 2 ^ 31) :
    ∀ v ∈ pidValues acc content, 0 ≤ v ∧ v ≤ (readDigits 10 acc content).1 := by
  induction content generalizing acc with
  | nil => simp [pidValues]
  | cons c rest ih =>
    rw [readDigits_ten_cons] at h ⊢
    rw [pidValues]
    split_ifs at h ⊢ with hc
    · have hle := le_readDigits_ten (10 * acc + (c.toNat - 48)) rest
      have hstored : toInt32 (pidValue acc c) = ((10 * acc + (c.toNat - 48) : Nat) : Int) := by
        rw [pidValue_cast acc hc]
        apply toInt32_of_mem
        omega
      intro v hv
      rw [hstored, pidValue_cast acc hc] at hv
      rcases List.mem_cons.mp hv with rfl | hv
      · omega
      rcases List.mem_cons.mp hv with rfl | hv
      · omega
      · exact ih h v hv
    · simp

/-! ### Writing -/

/-- What the calls of `pid_write` come to: whether the file opens, the number is printed
and the stream closes, and how many bytes reach the file where one of the last two fails. -/
structure WriteOutcome where
  /-- `fopen(pidfile, "w")` gives a stream -/
  opened : Bool
  /-- `fprintf` returns the number of bytes -/
  printed : Bool
  /-- `fclose` returns 0 -/
  closed : Bool
  /-- bytes in the file after a failure -/
  flushed : Nat

/-- `pid_write`: the result, and the file that is left in place of `before`. -/
def pidWrite (outcome : WriteOutcome) (pid : Int) (before : Option Bytes) : Int × Option Bytes :=
  if outcome.opened = false then (-1, before)
  else
    let text := printInt pid
    let res1 : Int := if outcome.printed then text.length else -1
    let res2 : Int := if outcome.closed then 0 else -1
    let content := if outcome.printed && outcome.closed then text else text.take outcome.flushed
    (if res1 > 0 ∧ res2 = 0 then 0 else -1, some content)

/-- A write that reports success has left the number, and nothing else. -/
theorem pidWrite_success {outcome : WriteOutcome} {pid : Int} {before : Option Bytes}
    (h : (pidWrite outcome pid before).1 = 0) :
    (pidWrite outcome pid before).2 = some (printInt pid) := by
  unfold pidWrite at h ⊢
  by_cases hopened : outcome.opened = false
  · rw [if_pos hopened] at h
    simp at h
  · rw [if_neg hopened] at h ⊢
    by_cases hboth : outcome.printed = true ∧ outcome.closed = true
    · simp [hboth.1, hboth.2]
    · rw [not_and_or, Bool.not_eq_true, Bool.not_eq_true] at hboth
      rcases hboth with hprinted | hclosed
      · simp [hprinted] at h
      · simp [hclosed] at h

theorem readDigits_ten_decimal (n : Nat) : (readDigits 10 0 (decimal n)).1 = n := by
  have hread := readDigits_decimal n []
  rw [List.append_nil] at hread
  rw [hread]
  rfl

/-- A pid that was written is read back, and nothing computed on the way leaves an `int`. -/
theorem pidGet_pidWrite {pid : Int} (hpid : 1 ≤ pid ∧ pid ≤ 2 ^ 31 - 1) {outcome : WriteOutcome}
    {before : Option Bytes} (h : (pidWrite outcome pid before).1 = 0) :
    ∃ content, (pidWrite outcome pid before).2 = some content ∧
      pidGet (some content) = pid ∧ ∀ v ∈ pidValues 0 content, 0 ≤ v ∧ v ≤ 2 ^ 31 - 1 := by
  refine ⟨decimal pid.natAbs, ?_, ?_, ?_⟩
  · rw [pidWrite_success h, printInt, if_neg (by omega)]
  · calc pidGet (some (decimal pid.natAbs))
        = toInt32 (readDigits 10 0 (decimal pid.natAbs)).1 := pidGetLoop_eq 0 _
      _ = toInt32 pid.natAbs := by rw [readDigits_ten_decimal]
      _ = pid.natAbs := toInt32_of_mem (by omega)
      _ = pid := by omega
  · intro v hv
    have hvalue := readDigits_ten_decimal pid.natAbs
    have hbound : (readDigits 10 0 (decimal pid.natAbs)).1 < 2 ^ 31 := by
      rw [hvalue]
      omega
    have hle := pidValues_le hbound v hv
    rw [hvalue] at hle
    omega

/-- The largest pid, written over an older file. -/
theorem pidGet_pidWrite_largest :
    ∃ content, (pidWrite ⟨true, true, true, 0⟩ 2147483647 (some (ascii "99"))).2 = some content ∧
      pidGet (some content) = 2147483647 ∧
      ∀ v ∈ pidValues 0 content, 0 ≤ v ∧ v ≤ 2 ^ 31 - 1 :=
  pidGet_pidWrite (by norm_num) (by decide +kernel)

end Rblpolicyd
