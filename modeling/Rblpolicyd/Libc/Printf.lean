import Rblpolicyd.Libc.Numerals

/-!
# Format strings

`printf` and its relatives copy a format up to each `%`, read a conversion there and write
the next arguments as it says; `syslog` expands its text in the same way, with `%m` for the
last error. A conversion that the standard does not define has no output here. What an
argument is written as is a parameter of the expansion, so that a format can be looked at
whatever happens to be in the place of its arguments.

## Main definitions

* `Conversion`, `readConversion` — one conversion, and how it is read
* `Conversion.arguments` — how many arguments it takes, `none` when it is not defined
* `expand` — the expansion of a format: its text and the number of arguments taken
* `Argument`, `printf`, `vsnprintf` — formats with strings and integers as arguments
* `FixedPoint` — a format that is its own expansion, and takes no argument

## Main results

* `expand_fuel` — the fuel that `expand` has is enough
* `fixedPoint_iff` — the fixed points are the texts without a `%`
-/

namespace Libc

/-- The byte `%`. -/
abbrev percent : UInt8 := 37

/-! ### Conversions -/

/-- A conversion, without its `%`. -/
structure Conversion where
  flags : Bytes
  /-- digits, or a `*` that takes an argument -/
  width : Bytes
  precision : Option Bytes
  length : Bytes
  specifier : UInt8
  deriving DecidableEq

/-- The digits of a width or of a precision, or a `*`. -/
def readWidth : Bytes → Bytes × Bytes
  | [] => ([], [])
  | b :: s =>
    if b = 42 then ([b], s)
    else ((b :: s).takeWhile (isDigit 10), (b :: s).dropWhile (isDigit 10))

/-- A dot and a precision, when there is one. -/
def readPrecision : Bytes → Option Bytes × Bytes
  | [] => (none, [])
  | b :: s => if b = 46 then (some (readWidth s).1, (readWidth s).2) else (none, b :: s)

/-- A conversion and the text behind it; `none` where the format ends too soon. -/
def readConversion (s : Bytes) : Option (Conversion × Bytes) :=
  let isFlag : UInt8 → Bool := fun b => b ∈ ascii "-+ #0"
  let isLength : UInt8 → Bool := fun b => b ∈ ascii "hlqLjzt"
  let (width, t) := readWidth (s.dropWhile isFlag)
  let (precision, u) := readPrecision t
  match u.dropWhile isLength with
  | [] => none
  | specifier :: rest =>
    some (⟨s.takeWhile isFlag, width, precision, u.takeWhile isLength, specifier⟩, rest)

/-- The arguments that a conversion takes, one for each `*` and one for its value; `none` for
a conversion that is not defined. -/
def Conversion.arguments (c : Conversion) : Option Nat :=
  let stars := (c.width ++ c.precision.getD []).count 42
  if c.specifier = percent then
    -- nothing may stand between the two signs
    if c.flags = [] ∧ c.width = [] ∧ c.precision = none ∧ c.length = [] then some 0 else none
  else if c.specifier = 109 then some stars
  else if c.specifier ∈ ascii "diouxXeEfFgGaAcspn" then some (stars + 1)
  else none

/-- What is written for a conversion whose first argument is number `k`. -/
def Conversion.output (render : Nat → Conversion → Bytes) (k : Nat) (c : Conversion) : Bytes :=
  if c.specifier = percent then [percent]
  else if c.specifier = 110 then []
  else render k c

/-- The expansion from the argument with number `k` on. -/
def expandFrom (render : Nat → Conversion → Bytes) : Nat → Nat → Bytes → Option (Bytes × Nat)
  | _, k, [] => some ([], k)
  | 0, _, _ :: _ => none
  | fuel + 1, k, b :: s =>
    if b = percent then
      match readConversion s with
      | none => none
      | some (c, rest) =>
        match c.arguments with
        | none => none
        | some n =>
          (expandFrom render fuel (k + n) rest).map fun r => (c.output render k ++ r.1, r.2)
    else (expandFrom render fuel k s).map fun r => (b :: r.1, r.2)

/-- The expansion of a format: its text, and how many arguments it takes. -/
def expand (render : Nat → Conversion → Bytes) (format : Bytes) : Option (Bytes × Nat) :=
  expandFrom render format.length 0 format

/-- A format that is its own expansion and takes no argument, whatever is in their place. -/
def FixedPoint (format : Bytes) : Prop := ∀ render, expand render format = some (format, 0)

/-! ### Strings and integers -/

/-- An argument of `printf`. -/
inductive Argument where
  | string (s : Bytes)
  | int (n : Int)

/-- A 64-bit value stored into a `short`. -/
def toInt16 (n : Int) : Int := n.bmod (2 ^ 16)

/-- Blanks up to the width, behind the text with the flag `-` and before it without. -/
def Conversion.pad (c : Conversion) (s : Bytes) : Bytes :=
  let blanks := List.replicate (decimalValue c.width - s.length) 32
  if 45 ∈ c.flags then s ++ blanks else blanks ++ s

/-- An argument as `%s`, `%hd`, `%d` or `%ld` write it, with the flag `-` and a width. -/
def Conversion.write (c : Conversion) : Argument → Bytes
  | .string s => c.pad s
  | .int n =>
    c.pad (printInt (if c.length = ascii "h" then toInt16 n
      else if c.length = [] then toInt32 n else n))

/-- The arguments of a call, by number. -/
def renderArguments (args : List Argument) (k : Nat) (c : Conversion) : Bytes :=
  match args[k]? with
  | none => []
  | some a => c.write a

/-- The text that `printf` writes. -/
def printf (format : Bytes) (args : List Argument) : Option Bytes :=
  (expand (renderArguments args) format).map Prod.fst

/-- What `vsnprintf` leaves in a buffer of `size` bytes, before the NUL. -/
def vsnprintf (size : Nat) (format : Bytes) (args : List Argument) : Option Bytes :=
  (printf format args).map (·.take (size - 1))

/-! ### Reading conversions -/

theorem readWidth_append (s : Bytes) : (readWidth s).1 ++ (readWidth s).2 = s := by
  cases s with
  | nil => rfl
  | cons b s =>
    rw [readWidth]
    split_ifs with hb
    · rfl
    · exact List.takeWhile_append_dropWhile

theorem readPrecision_suffix (s : Bytes) : (readPrecision s).2 <:+ s := by
  cases s with
  | nil => exact List.suffix_rfl
  | cons b s =>
    rw [readPrecision]
    split_ifs with hb
    · have hwidth : (readWidth s).2 <:+ s := ⟨_, readWidth_append s⟩
      exact hwidth.trans (List.suffix_cons b s)
    · exact List.suffix_rfl

/-- A conversion ends with its specifier. -/
theorem readConversion_suffix {s rest : Bytes} {c : Conversion}
    (h : readConversion s = some (c, rest)) : c.specifier :: rest <:+ s := by
  simp only [readConversion] at h
  split at h
  · cases h
  · rename_i specifier rest' heq
    obtain ⟨rfl, rfl⟩ := Prod.mk.inj (Option.some.inj h)
    rw [← heq]
    apply (List.dropWhile_suffix _).trans
    apply (readPrecision_suffix _).trans
    exact (List.IsSuffix.trans ⟨_, readWidth_append _⟩ (List.dropWhile_suffix _))

theorem readConversion_length {s rest : Bytes} {c : Conversion}
    (h : readConversion s = some (c, rest)) : rest.length < s.length := by
  have hlength := (readConversion_suffix h).length_le
  rwa [List.length_cons] at hlength

/-- More fuel than the format is long makes no difference. -/
theorem expandFrom_fuel (render : Nat → Conversion → Bytes) {s : Bytes} {fuel : Nat}
    (hfuel : s.length ≤ fuel) (k : Nat) :
    expandFrom render fuel k s = expandFrom render s.length k s := by
  -- any two amounts of fuel that are enough agree
  suffices h : ∀ fuel more, s.length ≤ fuel → s.length ≤ more →
      expandFrom render fuel k s = expandFrom render more k s from h fuel s.length hfuel le_rfl
  clear hfuel
  intro fuel
  induction fuel generalizing s k with
  | zero =>
    intro more hle _
    obtain rfl := List.eq_nil_of_length_eq_zero (Nat.le_zero.mp hle)
    cases more <;> rfl
  | succ fuel ih =>
    intro more hle hmore
    cases s with
    | nil => cases more <;> rfl
    | cons b s =>
      rw [List.length_cons] at hle hmore
      cases more with
      | zero => exact absurd hmore (Nat.not_succ_le_zero _)
      | succ more =>
        rw [expandFrom, expandFrom]
        split_ifs with hb
        · cases hread : readConversion s with
          | none => rfl
          | some r =>
            have hshort := readConversion_length hread
            cases hargs : r.1.arguments with
            | none => simp only [hargs]
            | some n =>
              simp only [hargs]
              rw [ih (k + n) more (by omega) (by omega)]
        · rw [ih k more (by omega) (by omega)]

/-! ### Fixed points -/

/-- A text without a `%` expands to itself. -/
theorem expandFrom_of_notMem (render : Nat → Conversion → Bytes) {s : Bytes} (h : percent ∉ s)
    (k : Nat) : expandFrom render s.length k s = some (s, k) := by
  induction s with
  | nil => rfl
  | cons b s ih =>
    obtain ⟨hb, hs⟩ := not_or.mp (mt List.mem_cons.mpr h)
    rw [List.length_cons, expandFrom, if_neg (Ne.symm hb), ih hs]
    rfl

/-- With empty texts for the arguments every `%` of a format is lost, or one of two. -/
theorem count_expandFrom {s out : Bytes} {fuel k n : Nat}
    (h : expandFrom (fun _ _ => []) fuel k s = some (out, n)) :
    out.count percent ≤ s.count percent ∧
      (percent ∈ s → out.count percent < s.count percent) := by
  induction fuel generalizing s out k n with
  | zero =>
    cases s with
    | nil =>
      obtain ⟨rfl, -⟩ := Prod.mk.inj (Option.some.inj h)
      simp
    | cons b s => cases h
  | succ fuel ih =>
    cases s with
    | nil =>
      obtain ⟨rfl, -⟩ := Prod.mk.inj (Option.some.inj h)
      simp
    | cons b s =>
      rw [expandFrom] at h
      split_ifs at h with hb
      · subst hb
        cases hread : readConversion s with
        | none => simp [hread] at h
        | some r =>
          cases hargs : r.1.arguments with
          | none => simp [hread, hargs] at h
          | some m =>
            simp only [hread, hargs, Option.map_eq_some_iff, Prod.mk.injEq] at h
            obtain ⟨r', hrest, rfl, -⟩ := h
            have hle := (ih hrest).1
            -- the specifier and the rest are a suffix of the text
            have hcount := (readConversion_suffix hread).sublist.count_le percent
            rw [List.count_cons] at hcount
            have hself : (percent :: s).count percent = s.count percent + 1 := by simp
            rw [List.count_append, hself]
            have hout : (r.1.output (fun _ _ => []) k).count percent ≤
                if (r.1.specifier == percent) = true then 1 else 0 := by
              unfold Conversion.output
              by_cases hspecifier : r.1.specifier = percent
              · simp [hspecifier]
              · rw [if_neg hspecifier]
                split_ifs <;> simp
            omega
      · obtain ⟨r', hrest, hpair⟩ := Option.map_eq_some_iff.mp h
        obtain ⟨rfl, -⟩ := Prod.mk.inj hpair
        obtain ⟨hle, hlt⟩ := ih hrest
        rw [List.count_cons_of_ne hb, List.count_cons_of_ne hb]
        refine ⟨hle, fun hmem => ?_⟩
        exact hlt ((List.mem_cons.mp hmem).resolve_left (Ne.symm hb))

/-- The formats that are safe with any arguments are the texts without a `%`. -/
theorem fixedPoint_iff (format : Bytes) : FixedPoint format ↔ percent ∉ format := by
  constructor
  · intro h hmem
    have hlt := (count_expandFrom (h fun _ _ => [])).2 hmem
    exact Nat.lt_irrefl _ hlt
  · intro h render
    exact expandFrom_of_notMem render h 0

end Libc
