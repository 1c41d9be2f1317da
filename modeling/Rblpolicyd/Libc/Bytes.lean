import Mathlib.Data.List.Infix
import Mathlib.Data.List.TakeWhile

/-!
# Byte strings and the searches of the C string library

A C string is the list of its bytes without the terminating NUL; a `char *` into
a string is the suffix it points at, so that a pointer difference is a difference
of lengths. This file fixes that reading and gives the searches `strstr`,
`strchr` and the character class `isspace` of the C locale, with the facts that
relate a search over a text to searches over its lines.

## Main definitions

* `Bytes`, `ascii`, `cstr` — byte strings, literals, a buffer read as a C string
* `isspace` — white space of the C locale
* `strstr`, `strchr` — forward searches, `none` for a null result

## Main results

* `strstr_spec` — a search finds a suffix of the text that starts with the needle
* `strstr_append` — text behind the hay does not move the first occurrence
* `strstr_append_cons` — a needle free of the separator is found line by line
* `strchr_append_cons` — the first occurrence of a byte
-/

namespace Libc

/-- A C string without its terminating NUL, or the bytes of a buffer. -/
abbrev Bytes := List UInt8

/-- The bytes of a source literal. -/
def ascii (s : String) : Bytes := s.toList.map fun c => UInt8.ofNat c.toNat

/-- The byte `\0`. -/
abbrev nul : UInt8 := 0

/-- The byte `\n`. -/
abbrev lf : UInt8 := 10

/-- The byte `\r`. -/
abbrev cr : UInt8 := 13

/-- A buffer read as a C string: everything before its first NUL. -/
def cstr (buf : Bytes) : Bytes := buf.takeWhile (· ≠ nul)

/-- `isspace` in the C locale: space, and the controls from tab to carriage return. -/
def isspace (b : UInt8) : Bool := b == 32 || (9 ≤ b && b ≤ 13)

/-- `strstr`: the suffix of `hay` that starts at the first occurrence of `needle`. -/
def strstr : Bytes → Bytes → Option Bytes
  | [], needle => if needle = [] then some [] else none
  | b :: hay, needle =>
    if needle.isPrefixOf (b :: hay) then some (b :: hay) else strstr hay needle

/-- `strchr` for a byte other than NUL: the suffix that starts at its first occurrence. -/
def strchr : Bytes → UInt8 → Option Bytes
  | [], _ => none
  | b :: s, c => if b = c then some (b :: s) else strchr s c

/-! ### `cstr` -/

theorem cstr_eq_self {s : Bytes} (h : nul ∉ s) : cstr s = s := by
  refine List.takeWhile_eq_self_iff.mpr fun b hb => ?_
  simpa using fun e : b = nul => h (e ▸ hb)

theorem nul_notMem_cstr (buf : Bytes) : nul ∉ cstr buf := by
  intro h
  simpa using List.mem_takeWhile_imp h

theorem cstr_append_nul {s : Bytes} (h : nul ∉ s) (rest : Bytes) :
    cstr (s ++ nul :: rest) = s := by
  have hself := cstr_eq_self h
  unfold cstr at *
  rw [List.takeWhile_append, hself]
  simp

/-! ### `strstr` -/

theorem strstr_at_start {hay needle : Bytes} (h : needle <+: hay) :
    strstr hay needle = some hay := by
  cases hay with
  | nil => simp [strstr, List.prefix_nil.mp h]
  | cons b hay => simp [strstr, h]

/-- What a search finds is a suffix of the text that starts with the needle. -/
theorem strstr_spec {hay needle found : Bytes} (h : strstr hay needle = some found) :
    found <:+ hay ∧ needle <+: found := by
  induction hay with
  | nil =>
    simp only [strstr] at h
    split_ifs at h with hn
    obtain rfl := Option.some.inj h
    exact ⟨List.suffix_rfl, hn ▸ List.nil_prefix⟩
  | cons b hay ih =>
    simp only [strstr] at h
    split_ifs at h with hp
    · obtain rfl := Option.some.inj h
      exact ⟨List.suffix_rfl, List.isPrefixOf_iff_prefix.mp hp⟩
    · exact ⟨(ih h).1.trans (List.suffix_cons b hay), (ih h).2⟩

/-- Text behind the hay does not move the first occurrence. -/
theorem strstr_append {hay needle found : Bytes} (h : strstr hay needle = some found)
    (tail : Bytes) : strstr (hay ++ tail) needle = some (found ++ tail) := by
  induction hay with
  | nil =>
    rw [strstr] at h
    split_ifs at h with hn
    obtain rfl := Option.some.inj h
    exact strstr_at_start (by simp [hn])
  | cons b hay ih =>
    rw [strstr] at h
    split_ifs at h with hp
    · obtain rfl := Option.some.inj h
      have hstarts := List.isPrefixOf_iff_prefix.mp hp
      exact strstr_at_start (hstarts.trans (List.prefix_append _ _))
    · have hskip : ¬ needle <+: b :: (hay ++ tail) := by
        intro hstarts
        have hlen := (strstr_spec h).2.length_le.trans (strstr_spec h).1.length_le
        have hshort := List.prefix_of_prefix_length_le hstarts
          (List.prefix_append (b :: hay) tail) (by simp; omega)
        exact hp (List.isPrefixOf_iff_prefix.mpr hshort)
      rw [List.cons_append, strstr, if_neg (by simpa using hskip)]
      exact ih h

/-- A needle without the separator is found in a text line by line: first in what
precedes the separator, then in what follows it. -/
theorem strstr_append_cons {needle : Bytes} {sep : UInt8} (hne : needle ≠ [])
    (hsep : sep ∉ needle) (line rest : Bytes) :
    strstr (line ++ sep :: rest) needle =
      ((strstr line needle).map (· ++ sep :: rest)).or (strstr rest needle) := by
  -- a needle without the separator cannot reach past it
  have hstarts : ∀ l : Bytes, needle <+: l ++ sep :: rest ↔ needle <+: l := by
    intro l
    refine ⟨fun h => ?_, fun h => h.trans (List.prefix_append _ _)⟩
    rcases List.prefix_or_prefix_of_prefix h (List.prefix_append l (sep :: rest)) with hl | hl
    · exact hl
    · obtain ⟨t, rfl⟩ := hl
      rw [List.prefix_append_right_inj] at h
      cases t with
      | nil => simp
      | cons c t =>
        obtain ⟨rfl, -⟩ := List.cons_prefix_cons.mp h
        exact absurd (by simp) hsep
  induction line with
  | nil =>
    have hempty : ¬ needle <+: sep :: rest := fun h => hne (List.prefix_nil.mp ((hstarts []).mp h))
    simp only [List.nil_append, strstr, List.isPrefixOf_iff_prefix, hempty, hne, if_false,
      Option.map_none, Option.none_or]
  | cons b line ih =>
    have hp := hstarts (b :: line)
    by_cases h : needle <+: b :: line
    · rw [strstr_at_start (hp.mpr h), strstr_at_start h]
      rfl
    · rw [List.cons_append, strstr, if_neg (by simpa using fun hc => h (hp.mp hc)), ih,
        strstr, if_neg (by simpa using h)]

/-! ### `strchr` -/

theorem strchr_eq_none_iff {s : Bytes} {c : UInt8} : strchr s c = none ↔ c ∉ s := by
  induction s with
  | nil => simp [strchr]
  | cons b s ih =>
    rw [strchr]
    split_ifs with h
    · simp [h]
    · simp [ih, Ne.symm h]

theorem strchr_append_cons {s : Bytes} {c : UInt8} (h : c ∉ s) (rest : Bytes) :
    strchr (s ++ c :: rest) c = some (c :: rest) := by
  induction s with
  | nil => simp [strchr]
  | cons b s ih =>
    obtain ⟨hb, hs⟩ := not_or.mp (mt List.mem_cons.mpr h)
    rw [List.cons_append, strchr, if_neg (Ne.symm hb), ih hs]

end Libc
