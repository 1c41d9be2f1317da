import Rblpolicyd.Request.Client

/-!
# Whether the reversed address fits its buffer

The buffer for the reversed address is as long as the address itself. A number that is
printed from an `int` is no longer than its spelling, with one exception: ten digits without a
sign that wrap to an `int` of ten digits with a minus sign are printed with one character more.
Such a number needs a spare character somewhere, which white space, a sign, leading zeros, the
digits of another number that wraps or the text behind the fourth number can provide.

## Main definitions

* `Numeral`, `spellInt`, `spelledQuad` — the numbers of an address as they are spelled
* `Numeral.Wraps` — a number that is printed longer than it is spelled
* `Numeral.surplus` — the spare characters of a number

## Main results

* `Numeral.Spelled.length_printInt` — the length of one number
* `reverseQuad_fits_iff` — when the reversed address fits
-/

namespace Rblpolicyd

open Libc

/-- A number as `%d` reads it: white space, an optional sign and digits. -/
structure Numeral where
  gap : Bytes
  sign : Bytes
  digits : Bytes
  deriving DecidableEq

/-- The sign that `readSign` skips. -/
def signText : Bytes → Bytes
  | 45 :: _ => [45]
  | 43 :: _ => [43]
  | _ => []

/-- The spelling of the number that `%d` reads, and what it leaves. -/
def spellInt (s : Bytes) : Numeral × Bytes :=
  let t := s.dropWhile isspace
  let u := (readSign t).2
  (⟨s.takeWhile isspace, signText t, u.takeWhile (isDigit 10)⟩, u.dropWhile (isDigit 10))

/-- The spellings of the four numbers of an address, and the text behind the fourth. -/
def spelledQuad (client : Bytes) : List Numeral × Bytes :=
  let (n1, s) := spellInt client
  let (n2, s) := spellInt (s.drop 1)
  let (n3, s) := spellInt (s.drop 1)
  let (n4, s) := spellInt (s.drop 1)
  ([n1, n2, n3, n4], s)

namespace Numeral

/-- The characters of the spelling. -/
def text (n : Numeral) : Bytes := n.gap ++ n.sign ++ n.digits

/-- The number that the digits stand for. -/
def number (n : Numeral) : Nat := (readDigits 10 0 n.digits).1

/-- What `%d` stores. -/
def value (n : Numeral) : Int := toInt32 (saturate (n.sign = [45]) n.number)

/-- The zeros in front of another digit. -/
def zeros (n : Numeral) : Nat := (n.digits.dropLast.takeWhile (· = 48)).length

/-- The digits behind them. -/
def places (n : Numeral) : Nat := n.digits.length - n.zeros

/-- An `int` holds the number. -/
def Fits (n : Numeral) : Prop := n.number < 2 ^ 31 ∨ n.sign = [45] ∧ n.number = 2 ^ 31

/-- The residue of the number modulo `2 ^ 32`; one that a `long` does not hold counts as the
nearest number that it does hold. -/
def residue (n : Numeral) : Nat :=
  if n.sign = [45] then if n.number < 2 ^ 63 then (2 ^ 64 - n.number) % 2 ^ 32 else 0
  else if n.number < 2 ^ 63 then n.number % 2 ^ 32 else 2 ^ 32 - 1

/-- The characters that a residue calls for: its decimal places, and from `2 ^ 31` on a minus sign
and those of its distance to `2 ^ 32`. -/
def width (r : Nat) : Nat := if r < 2 ^ 31 then Nat.log 10 r + 1 else Nat.log 10 (2 ^ 32 - r) + 2

/-- The number has no sign and ten places, and its residue calls for a minus sign and ten more. -/
def Wraps (n : Numeral) : Prop :=
  n.sign = [] ∧ n.places = 10 ∧ 2 ^ 31 ≤ n.number % 2 ^ 32 ∧ n.number % 2 ^ 32 ≤ 2 ^ 32 - 10 ^ 9

instance (n : Numeral) : Decidable n.Fits := by
  unfold Fits
  infer_instance

instance (n : Numeral) : Decidable n.Wraps := by
  unfold Wraps
  infer_instance

/-- The spare characters of the spelling: white space, zeros, the sign of a number that has one to
no purpose, and where an `int` does not hold the number, those that its residue does without. -/
def surplus (n : Numeral) : Nat :=
  n.gap.length + n.zeros +
    if n.Fits then if n.sign = [43] ∨ n.sign = [45] ∧ n.number = 0 then 1 else 0
    else n.sign.length + n.places - width n.residue

/-- The spelling is one that `%d` reads. -/
structure Spelled (n : Numeral) : Prop where
  sign : n.sign = [] ∨ n.sign = [43] ∨ n.sign = [45]
  digits : ∀ b ∈ n.digits, isDigit 10 b = true
  digits_ne_nil : n.digits ≠ []

variable {n : Numeral}

theorem length_text (n : Numeral) :
    n.text.length = n.gap.length + n.sign.length + n.digits.length := by
  simp [text, Nat.add_assoc]

theorem Spelled.places_eq (h : n.Spelled) :
    n.digits.length = n.zeros + n.places ∧ n.places = Nat.log 10 n.number + 1 := by
  have hlength := length_eq_of_digits h.digits h.digits_ne_nil
  change n.digits.length = n.zeros + (Nat.log 10 n.number + 1) at hlength
  unfold places
  omega

/-! ### What a residue calls for -/

theorem residue_lt (n : Numeral) : n.residue < 2 ^ 32 := by
  unfold residue
  split_ifs <;> omega

/-- What is stored is the `int` with the residue of the number. -/
theorem value_eq (n : Numeral) :
    n.value = if n.residue < 2 ^ 31 then (n.residue : Int) else n.residue - 2 ^ 32 := by
  have hresidue : saturate (n.sign = [45]) n.number % 2 ^ 32 = n.residue := by
    unfold residue saturate longMax
    by_cases hsign : n.sign = [45]
    · simp only [hsign, decide_true, if_true]
      split_ifs <;> omega
    · simp only [hsign, decide_false, Bool.false_eq_true, if_false]
      split_ifs <;> omega
  rw [value, toInt32_eq, hresidue]
  split_ifs with h₁ h₂ h₂
  · rfl
  · omega
  · omega
  · rfl

theorem length_printInt_value (n : Numeral) : (printInt n.value).length = width n.residue := by
  have hlt := n.residue_lt
  rw [length_printInt, length_decimal, value_eq, width]
  by_cases hlow : n.residue < 2 ^ 31
  · rw [if_pos hlow, if_pos hlow, if_neg (by omega), Int.natAbs_natCast, Nat.add_zero]
  · have habs : ((n.residue : Int) - 2 ^ 32).natAbs = 2 ^ 32 - n.residue := by omega
    rw [if_neg hlow, if_neg hlow, if_pos (by omega), habs]

theorem width_residue_le (n : Numeral) : width n.residue ≤ 11 := by
  rw [← length_printInt_value]
  exact length_printInt_toInt32 _

/-- Eleven characters are a minus sign and ten digits. -/
theorem eleven_le_width_iff {r : Nat} (hr : r < 2 ^ 32) :
    11 ≤ width r ↔ 2 ^ 31 ≤ r ∧ r ≤ 2 ^ 32 - 10 ^ 9 := by
  unfold width
  split_ifs with hlow
  · have hlog : Nat.log 10 r < 10 := Nat.log_lt_of_lt_pow' (by norm_num) (by omega)
    omega
  · have hlog : 9 ≤ Nat.log 10 (2 ^ 32 - r) ↔ 10 ^ 9 ≤ 2 ^ 32 - r :=
      Nat.le_log_iff_pow_le (by norm_num) (by omega)
    omega

/-! ### The length of one number -/

/-- A number that an `int` holds is printed with its places, and a minus sign below zero. -/
theorem Spelled.length_printInt_of_fits (h : n.Spelled) (hfits : n.Fits) :
    (printInt n.value).length =
      n.places + if n.sign = [45] ∧ n.number ≠ 0 then 1 else 0 := by
  rw [h.places_eq.2, length_printInt, length_decimal, value]
  by_cases hsign : n.sign = [45]
  · have hle : n.number ≤ 2 ^ 31 := hfits.elim Nat.le_of_lt fun h => h.2.le
    have hneg : -(n.number : Int) < 0 ↔ n.number ≠ 0 := by omega
    simp only [hsign, decide_true, toInt32_saturate_true hle, Int.natAbs_neg, Int.natAbs_natCast,
      hneg, true_and]
  · have hlt : n.number < 2 ^ 31 := hfits.resolve_right fun h => hsign h.1
    have hnonneg : ¬ (n.number : Int) < 0 := by omega
    simp only [hsign, decide_false, toInt32_saturate_false hlt, Int.natAbs_natCast, hnonneg,
      false_and]

theorem not_wraps_of_fits (hfits : n.Fits) : ¬ n.Wraps := by
  rintro ⟨hsign, -, hlow, -⟩
  have hlt : n.number < 2 ^ 31 := hfits.resolve_right fun h => by simp [hsign] at h
  omega

/-- A number that an `int` does not hold has ten places at least. -/
theorem Spelled.ten_le_places (h : n.Spelled) (hfits : ¬ n.Fits) : 10 ≤ n.places := by
  have hlarge : 2 ^ 31 ≤ n.number := not_lt.mp fun hlt => hfits (.inl hlt)
  have hlog : 9 ≤ Nat.log 10 n.number :=
    (Nat.le_log_iff_pow_le (by norm_num) (by omega)).mpr (by omega)
  have hplaces := h.places_eq.2
  omega

/-- With no sign and ten places, the residue is that of the digits. -/
theorem Spelled.residue_of_bare (h : n.Spelled) (hsign : n.sign = []) (hten : n.places = 10) :
    n.residue = n.number % 2 ^ 32 := by
  have hlog : Nat.log 10 n.number < 10 := by
    have hplaces := h.places_eq.2
    omega
  have hlt : n.number < 10 ^ 10 := Nat.lt_pow_of_log_lt (by norm_num) hlog
  rw [residue, if_neg (by simp [hsign]), if_pos (by omega)]

/-- A number wraps when its residue calls for more characters than its sign and its places. -/
theorem Spelled.wraps_iff (h : n.Spelled) (hfits : ¬ n.Fits) :
    n.Wraps ↔ n.sign.length + n.places < width n.residue := by
  have hten := h.ten_le_places hfits
  have hle := n.width_residue_le
  constructor
  · rintro ⟨hsign, hplaces, hlow, hhigh⟩
    have heleven : 11 ≤ width n.residue := by
      rw [eleven_le_width_iff n.residue_lt, h.residue_of_bare hsign hplaces]
      exact ⟨hlow, hhigh⟩
    rw [hsign, hplaces]
    exact heleven
  · intro hlonger
    have hsign : n.sign = [] := List.eq_nil_of_length_eq_zero (by omega)
    have hplaces : n.places = 10 := by omega
    have heleven : 11 ≤ width n.residue := by omega
    rw [eleven_le_width_iff n.residue_lt, h.residue_of_bare hsign hplaces] at heleven
    exact ⟨hsign, hplaces, heleven⟩

/-- What is printed and what is left over make the spelling, but for a number that wraps. -/
theorem Spelled.length_printInt (h : n.Spelled) :
    (printInt n.value).length + n.surplus = n.text.length + if n.Wraps then 1 else 0 := by
  have hdigits := h.places_eq.1
  rw [length_text, surplus]
  by_cases hfits : n.Fits
  · rw [h.length_printInt_of_fits hfits, if_pos hfits, if_neg (not_wraps_of_fits hfits)]
    rcases h.sign with hsign | hsign | hsign
    · simp [hsign]
      omega
    · simp [hsign]
      omega
    · by_cases hzero : n.number = 0
      · simp [hsign, hzero]
        omega
      · simp [hsign, hzero]
        omega
  · rw [length_printInt_value, if_neg hfits]
    have hwraps := h.wraps_iff hfits
    have hten := h.ten_le_places hfits
    have hle := n.width_residue_le
    by_cases hlonger : n.sign.length + n.places < width n.residue
    · rw [if_pos (hwraps.mpr hlonger)]
      omega
    · rw [if_neg (mt hwraps.mp hlonger)]
      omega

end Numeral

/-! ### The spellings of an address -/

/-- The sign, and what is behind it. -/
theorem readSign_eq (s : Bytes) :
    signText s ++ (readSign s).2 = s ∧ (readSign s).1 = decide (signText s = [45]) := by
  cases s with
  | nil => exact ⟨rfl, rfl⟩
  | cons b s =>
    by_cases hminus : b = 45
    · subst hminus
      exact ⟨rfl, rfl⟩
    · by_cases hplus : b = 43
      · subst hplus
        exact ⟨rfl, rfl⟩
      · simp [signText, readSign, hminus, hplus]

theorem text_spellInt (s : Bytes) : (spellInt s).1.text ++ (spellInt s).2 = s := by
  simp only [spellInt, Numeral.text, List.append_assoc, List.takeWhile_append_dropWhile,
    (readSign_eq _).1]

/-- `%d` reads a number when there is a digit behind the white space and the sign. -/
theorem scanInt_eq (s : Bytes) :
    scanInt s =
      if (spellInt s).1.digits = [] then none
      else some ((spellInt s).1.value, (spellInt s).2) := by
  have hsign := (readSign_eq (s.dropWhile isspace)).2
  simp only [scanInt, readMagnitude_eq]
  by_cases hdigits : (spellInt s).1.digits = []
  · rw [if_pos hdigits]
    simp only [spellInt] at hdigits
    simp only [hdigits, if_true]
  · rw [if_neg hdigits]
    simp only [spellInt] at hdigits
    simp only [hdigits, if_false, hsign]
    rfl

theorem spelled_spellInt {s : Bytes} (hdigits : (spellInt s).1.digits ≠ []) :
    (spellInt s).1.Spelled where
  sign := by
    simp only [spellInt]
    unfold signText
    split <;> simp
  digits b hb := List.mem_takeWhile_imp hb
  digits_ne_nil := hdigits

/-- A number that is read, with its spelling. -/
theorem spelled_of_scanInt {s rest : Bytes} {v : Int} (h : scanInt s = some (v, rest)) :
    (spellInt s).1.Spelled ∧ (spellInt s).1.value = v ∧ (spellInt s).2 = rest := by
  rw [scanInt_eq] at h
  obtain ⟨hdigits, heq⟩ := Option.ite_none_left_eq_some.mp h
  obtain ⟨hvalue, hrest⟩ := Prod.mk.inj (Option.some.inj heq)
  exact ⟨spelled_spellInt hdigits, hvalue, hrest⟩

theorem scanDot_eq_some {s rest : Bytes} (h : scanDot s = some rest) : s = dot :: rest := by
  cases s with
  | nil => cases h
  | cons b s =>
    obtain ⟨hb, heq⟩ := Option.ite_none_right_eq_some.mp h
    rw [hb, Option.some.inj heq]

/-- The numbers of an address that is read are spelled one after the other, with dots between
them. -/
theorem spelledQuad_of_scanQuad {client : Bytes} {quad : Int × Int × Int × Int}
    (h : scanQuad client = some quad) :
    ∃ n1 n2 n3 n4 rest, spelledQuad client = ([n1, n2, n3, n4], rest) ∧
      (∀ n ∈ [n1, n2, n3, n4], n.Spelled) ∧ quad = (n1.value, n2.value, n3.value, n4.value) ∧
      client = n1.text ++ dot :: n2.text ++ dot :: n3.text ++ dot :: n4.text ++ rest := by
  unfold scanQuad at h
  obtain ⟨⟨o1, s1⟩, h1, h⟩ := Option.bind_eq_some_iff.mp h
  obtain ⟨t1, hdot1, h⟩ := Option.bind_eq_some_iff.mp h
  obtain ⟨⟨o2, s2⟩, h2, h⟩ := Option.bind_eq_some_iff.mp h
  obtain ⟨t2, hdot2, h⟩ := Option.bind_eq_some_iff.mp h
  obtain ⟨⟨o3, s3⟩, h3, h⟩ := Option.bind_eq_some_iff.mp h
  obtain ⟨t3, hdot3, h⟩ := Option.bind_eq_some_iff.mp h
  obtain ⟨⟨o4, s4⟩, h4, h⟩ := Option.bind_eq_some_iff.mp h
  obtain rfl := Option.some.inj h
  obtain ⟨hspelled1, rfl, rfl⟩ := spelled_of_scanInt h1
  have hrest1 := scanDot_eq_some hdot1
  obtain ⟨hspelled2, rfl, rfl⟩ := spelled_of_scanInt h2
  have hrest2 := scanDot_eq_some hdot2
  obtain ⟨hspelled3, rfl, rfl⟩ := spelled_of_scanInt h3
  have hrest3 := scanDot_eq_some hdot3
  obtain ⟨hspelled4, rfl, rfl⟩ := spelled_of_scanInt h4
  refine ⟨_, _, _, _, (spellInt t3).2, ?_, ?_, rfl, ?_⟩
  · simp only [spelledQuad, hrest1, hrest2, hrest3, List.drop_succ_cons, List.drop_zero]
  · simp only [List.mem_cons, List.not_mem_nil, or_false]
    rintro n (rfl | rfl | rfl | rfl)
    · exact hspelled1
    · exact hspelled2
    · exact hspelled3
    · exact hspelled4
  · calc client
        = (spellInt client).1.text ++ (spellInt client).2 := (text_spellInt client).symm
      _ = (spellInt client).1.text ++ dot :: t1 := by rw [hrest1]
      _ = (spellInt client).1.text ++ dot :: ((spellInt t1).1.text ++ dot :: t2) := by
        rw [← hrest2, text_spellInt]
      _ = (spellInt client).1.text ++ dot :: ((spellInt t1).1.text ++
            dot :: ((spellInt t2).1.text ++ dot :: t3)) := by
        rw [← hrest3, text_spellInt]
      _ = (spellInt client).1.text ++ dot :: ((spellInt t1).1.text ++
            dot :: ((spellInt t2).1.text ++
              dot :: ((spellInt t3).1.text ++ (spellInt t3).2))) := by
        rw [text_spellInt t3]
      _ = _ := by simp

/-- Whatever the spelling of an address that is read, its reversal is at most as long, for which
the buffer is made, exactly when the address has a spare character for each number that wraps:
behind its fourth number, or in the spelling of one of the four. -/
theorem reverseQuad_fits_iff {client : Bytes} {quad : Int × Int × Int × Int}
    (hquad : scanQuad client = some quad) :
    (reverseQuad quad).length ≤ client.length ↔
      (spelledQuad client).1.countP (fun n => n.Wraps) ≤
        (spelledQuad client).2.length + ((spelledQuad client).1.map Numeral.surplus).sum := by
  obtain ⟨n1, n2, n3, n4, rest, hspelled, hall, rfl, hclient⟩ := spelledQuad_of_scanQuad hquad
  have hlength : client.length =
      n1.text.length + n2.text.length + n3.text.length + n4.text.length + rest.length + 3 := by
    rw [hclient]
    simp
    omega
  have hprinted : (reverseQuad (n1.value, n2.value, n3.value, n4.value)).length =
      (printInt n1.value).length + (printInt n2.value).length + (printInt n3.value).length +
        (printInt n4.value).length + 3 := by
    simp [reverseQuad]
    omega
  have h1 := (hall n1 (by simp)).length_printInt
  have h2 := (hall n2 (by simp)).length_printInt
  have h3 := (hall n3 (by simp)).length_printInt
  have h4 := (hall n4 (by simp)).length_printInt
  rw [hlength, hprinted, hspelled]
  simp only [List.countP_cons, List.countP_nil, List.map_cons, List.map_nil, List.sum_cons,
    List.sum_nil, decide_eq_true_eq]
  omega

/-- Leading zeros make up for a number that wraps. -/
theorem reverseQuad_fits_sample :
    (reverseQuad (-2147483648, 0, 0, 0)).length ≤ (ascii "2147483648.00.0.0").length := by
  have hquad : scanQuad (ascii "2147483648.00.0.0") = some (-2147483648, 0, 0, 0) := by
    decide +kernel
  exact (reverseQuad_fits_iff hquad).mpr (by decide +kernel)

/-- Without them the reversed address is one character too long. -/
theorem reverseQuad_too_long :
    scanQuad (ascii "2147483648.0.0.0") = some (-2147483648, 0, 0, 0) ∧
      reverseQuad (-2147483648, 0, 0, 0) = ascii "0.0.0.-2147483648" ∧
      (ascii "2147483648.0.0.0").length < (reverseQuad (-2147483648, 0, 0, 0)).length := by
  decide +kernel

end Rblpolicyd
