import Rblpolicyd.Snprintf.Dopr

/-!
# The replacement `snprintf` stays in its buffer

Every turn of the formatter's loop reads on or comes closer to the end of a directive, so
that it ends. Whatever the format and the arguments are, and whatever a floating point
number looks like, the stores stay in the buffer just if it has room for the NUL; a size of
0 still stores. The format is read up to its NUL: only a `w` as its last character, which
takes the next character with it, can lead behind.

## Main definitions

* `DoprState.measure` — how far the formatter is from its end
* `InBounds` — the formatter stands on a character of its format, with its output in the buffer

## Main results

* `loop_ends` — the loop ends
* `vsnprintf_in_bounds` — the stores, the text that is left, and what is read
-/

namespace Rblpolicyd.Snprintf

open Libc

variable {maxlen : Nat} {fmtfp : Nat → Int → Int → DpFlags → Bytes} {st st' : DoprState}
  {format : Bytes} {args : List VaArg}

theorem outchs_eq {out : Bytes} (h : out.length ≤ maxlen) (text : Bytes) :
    outchs maxlen out text = (out ++ text).take maxlen := by
  induction text generalizing out with
  | nil => rw [List.append_nil, List.take_of_length_le h]; rfl
  | cons c text ih =>
    have hfold : outchs maxlen out (c :: text) = outchs maxlen (doprOutch maxlen out c) text := rfl
    rw [hfold, doprOutch]
    split_ifs with hroom
    · rw [ih (by simpa using hroom), List.append_assoc, List.singleton_append]
    · have hfull : out.length = maxlen := by omega
      rw [ih h, ← hfull, List.take_left, List.take_left]

theorem length_outchs {out : Bytes} (h : out.length ≤ maxlen) (text : Bytes) :
    (outchs maxlen out text).length ≤ maxlen := by
  rw [outchs_eq h]
  exact List.length_take_le _ _

/-! ### What one turn does -/

/-- Another state that stands on the same character with the same output. -/
structure SamePlace (st mid : DoprState) : Prop where
  format : mid.format = st.format
  ch : mid.ch = st.ch
  out : mid.out = st.out
  overread : mid.overread = st.overread

theorem SamePlace.refl (st : DoprState) : SamePlace st st := ⟨rfl, rfl, rfl, rfl⟩

theorem SamePlace.next {mid : DoprState} (h : SamePlace st mid) : SamePlace st.next mid.next := by
  unfold DoprState.next
  rw [h.format]
  cases st.format with
  | nil => exact ⟨rfl, h.ch, h.out, rfl⟩
  | cons b rest => exact ⟨rfl, rfl, h.out, h.overread⟩

theorem eq_of_convKind_skip {ch : UInt8} (h : convKind ch = .skip) : ch = 119 := by
  unfold convKind at h
  split at h
  all_goals first | rfl | contradiction

/-- A conversion takes arguments and hands a text to `dopr_outch`; only a `w` reads on. -/
theorem convert_cases (maxlen : Nat) (fmtfp : Nat → Int → Int → DpFlags → Bytes)
    (st : DoprState) :
    (∃ text, SamePlace { st with out := outchs maxlen st.out text } (st.convert maxlen fmtfp)) ∨
      st.ch = 119 ∧ st.convert maxlen fmtfp = st.next := by
  have hquiet : ∀ mid : DoprState, SamePlace st mid →
      ∃ text, SamePlace { st with out := outchs maxlen st.out text } mid :=
    fun mid h => ⟨[], h.format, h.ch, h.out, h.overread⟩
  have hemit : ∀ args text, ∃ text', SamePlace { st with out := outchs maxlen st.out text' }
      (DoprState.emit maxlen { st with args := args } text) :=
    fun args text => ⟨text, rfl, rfl, rfl, rfl⟩
  have hinteger : ∀ value base flags, ∃ text, SamePlace
      { st with out := outchs maxlen st.out text } (st.integer maxlen value base flags) := by
    intro value base flags
    unfold DoprState.integer
    split
    · apply hemit
    · exact hquiet _ ⟨rfl, rfl, rfl, rfl⟩
  unfold DoprState.convert
  split
  · exact Or.inl (hinteger _ _ _)
  · exact Or.inl (hinteger _ _ _)
  · left
    unfold DoprState.floating
    split
    · split_ifs
      · apply hemit
      · exact hquiet _ ⟨rfl, rfl, rfl, rfl⟩
    · exact hquiet _ ⟨rfl, rfl, rfl, rfl⟩
  · exact Or.inl (hemit _ _)
  · exact Or.inl (hemit _ _)
  · exact Or.inl (hemit _ _)
  · exact Or.inl (hquiet _ ⟨rfl, rfl, rfl, rfl⟩)
  · exact Or.inl (hemit st.args _)
  · rename_i hkind
    exact Or.inr ⟨eq_of_convKind_skip hkind, rfl⟩
  · exact Or.inl (hquiet _ (SamePlace.refl st))
  all_goals exact Or.inl (hquiet _ ⟨rfl, rfl, rfl, rfl⟩)

/-- How far the formatter is from its end: the characters that are left, and the states
that it goes through without reading one. -/
def DoprState.measure (st : DoprState) : Nat :=
  match st.state with
  | .done => 0
  | .default => 10 * st.format.length + 1
  | .conv => 10 * st.format.length + 2
  | .mod => 10 * st.format.length + 3
  | .max => 10 * st.format.length + 4
  | .dot => 10 * st.format.length + 5
  | .min => 10 * st.format.length + 6
  | .flags => 10 * st.format.length + 7

/-- A turn stays on its character in a later state, or hands out a text and goes to the
next one, or to the one after that: behind a second `l`, or with a `w`. -/
inductive Turns (maxlen : Nat) (st : DoprState) : DoprState → Prop
  | stay {st' : DoprState} : SamePlace st st' → st'.measure < st.measure → Turns maxlen st st'
  | next {mid : DoprState} (text : Bytes) :
    SamePlace { st with out := outchs maxlen st.out text } mid → Turns maxlen st mid.next
  | twice {mid : DoprState} : SamePlace st.next mid → (st.ch = 119 ∨ st.next.ch = 108) →
    Turns maxlen st mid.next

theorem star_samePlace {set : Int → DoprState → DoprState}
    (hset : ∀ n mid, SamePlace mid (set n mid)) : SamePlace st (st.star set) := by
  unfold DoprState.star
  split
  · rename_i n args _
    have h := hset n { st with args := args }
    exact ⟨h.format, h.ch, h.out, h.overread⟩
  · exact ⟨rfl, rfl, rfl, rfl⟩

theorem Turns.of_quiet {mid : DoprState} (h : SamePlace st mid) : Turns maxlen st mid.next :=
  .next [] ⟨h.format, h.ch, h.out, h.overread⟩

theorem turn_turns (hdone : st.state ≠ .done) : Turns maxlen st (st.turn maxlen fmtfp) := by
  have hstay : ∀ state : DpState, ({ st with state := state } : DoprState).measure < st.measure →
      Turns maxlen st { st with state := state } :=
    fun state h => .stay ⟨rfl, rfl, rfl, rfl⟩ h
  unfold DoprState.turn
  cases hstate : st.state with
  | done => exact absurd hstate hdone
  | default =>
    simp only
    split_ifs
    · exact .of_quiet ⟨rfl, rfl, rfl, rfl⟩
    · exact .next [st.ch] ⟨rfl, rfl, rfl, rfl⟩
  | flags =>
    simp only
    split
    · exact .of_quiet ⟨rfl, rfl, rfl, rfl⟩
    · exact hstay _ (by simp [DoprState.measure, hstate])
  | min =>
    simp only
    split_ifs
    · exact .of_quiet ⟨rfl, rfl, rfl, rfl⟩
    · have hstar : SamePlace st (st.star fun n st => { st with min := n }) :=
        star_samePlace fun n mid => ⟨rfl, rfl, rfl, rfl⟩
      exact .of_quiet ⟨hstar.format, hstar.ch, hstar.out, hstar.overread⟩
    · exact hstay _ (by simp [DoprState.measure, hstate])
  | dot =>
    simp only
    split_ifs
    · exact .of_quiet ⟨rfl, rfl, rfl, rfl⟩
    · exact hstay _ (by simp [DoprState.measure, hstate])
  | max =>
    simp only
    split
    · exact .of_quiet ⟨rfl, rfl, rfl, rfl⟩
    · split
      · have hstar : SamePlace st (st.star fun n st => { st with max := n }) :=
          star_samePlace fun n mid => ⟨rfl, rfl, rfl, rfl⟩
        exact .of_quiet ⟨hstar.format, hstar.ch, hstar.out, hstar.overread⟩
      · exact hstay _ (by simp [DoprState.measure, hstate])
  | mod =>
    simp only
    split
    · exact .of_quiet ⟨rfl, rfl, rfl, rfl⟩
    · split
      · -- the second `l` is on the next character
        have hmid : SamePlace st.next
            ({ st with cflags := .long, state := .conv } : DoprState).next :=
          SamePlace.next ⟨rfl, rfl, rfl, rfl⟩
        split
        · rename_i hsecond
          refine .twice ⟨hmid.format, hmid.ch, hmid.out, hmid.overread⟩ (Or.inr ?_)
          rw [← hmid.ch]
          exact hsecond
        · exact .of_quiet ⟨rfl, rfl, rfl, rfl⟩
      · split
        · exact .of_quiet ⟨rfl, rfl, rfl, rfl⟩
        · split
          · exact .of_quiet ⟨rfl, rfl, rfl, rfl⟩
          · exact hstay _ (by simp [DoprState.measure, hstate])
  | conv =>
    simp only
    rcases convert_cases maxlen fmtfp st with ⟨text, h⟩ | ⟨hw, heq⟩
    · exact .next text ⟨h.format, h.ch, h.out, h.overread⟩
    · rw [heq]
      exact .twice ⟨rfl, rfl, rfl, rfl⟩ (Or.inl hw)

/-! ### The loop ends -/

theorem measure_next (st : DoprState) : st.next.measure < 10 * st.format.length + 1 := by
  unfold DoprState.next
  cases st.format with
  | nil => simp [DoprState.measure]
  | cons b rest =>
    simp only [DoprState.measure, List.length_cons]
    split <;> omega

theorem length_next_le (st : DoprState) : st.next.format.length ≤ st.format.length := by
  unfold DoprState.next
  cases st.format <;> simp

theorem Turns.measure_lt (h : Turns maxlen st st') (hdone : st.state ≠ .done) :
    st'.measure < st.measure := by
  have hpos : 10 * st.format.length + 1 ≤ st.measure := by
    unfold DoprState.measure
    cases hstate : st.state <;> first | exact absurd hstate hdone | simp
  cases h with
  | stay _ hlt => exact hlt
  | @next mid text hmid =>
    have hlt := measure_next mid
    rw [hmid.format] at hlt
    exact hlt.trans_le hpos
  | @twice mid hmid _ =>
    have hlt := measure_next mid
    have hle := length_next_le st
    rw [hmid.format] at hlt
    omega

theorem step_measure_lt (maxlen : Nat) (fmtfp : Nat → Int → Int → DpFlags → Bytes)
    (hdone : st.state ≠ .done) :
    (st.step maxlen fmtfp).measure < st.measure := by
  unfold DoprState.step
  split_ifs
  · have hpos : 0 < st.measure := by
      unfold DoprState.measure
      cases hstate : st.state <;> first | exact absurd hstate hdone | simp
    exact hpos
  · exact (turn_turns hdone).measure_lt hdone

/-- The loop ends, and keeps what its turns keep. -/
theorem loop_ends {P : DoprState → Prop}
    (hstep : ∀ st, st.state ≠ .done → P st → P (st.step maxlen fmtfp)) {fuel : Nat}
    (hfuel : st.measure ≤ fuel) (h : P st) :
    ∃ st', loop maxlen fmtfp fuel st = some st' ∧ P st' := by
  induction fuel generalizing st with
  | zero =>
    have hdone : st.state = .done := by
      by_contra hne
      have hlt := step_measure_lt maxlen fmtfp hne
      omega
    exact ⟨st, if_pos hdone, h⟩
  | succ fuel ih =>
    by_cases hdone : st.state = .done
    · exact ⟨st, if_pos hdone, h⟩
    · rw [loop, if_neg hdone]
      have hlt := step_measure_lt maxlen fmtfp hdone
      exact ih (by omega) (hstep st hdone h)

/-! ### The buffer and the format -/

/-- The formatter stands on a character of its format, or has ended behind the NUL, which
it only does with a `w` at the end. -/
structure InBounds (maxlen : Nat) (format : Bytes) (st : DoprState) : Prop where
  out : st.out.length ≤ maxlen
  onFormat : st.overread = false ∧ (∃ before, format ++ [nul] = before ++ st.ch :: st.format) ∨
    st.overread = true ∧ st.state = .done ∧ format.getLast? = some 119

theorem next_out (st : DoprState) : st.next.out = st.out := by
  unfold DoprState.next
  cases st.format <;> rfl

/-- In front of a character other than the NUL the next one is there. -/
theorem next_onFormat {before : Bytes} (h : format ++ [nul] = before ++ st.ch :: st.format)
    (hch : st.ch ≠ 0) :
    st.next.overread = st.overread ∧
      format ++ [nul] = (before ++ [st.ch]) ++ st.next.ch :: st.next.format := by
  unfold DoprState.next
  cases hformat : st.format with
  | nil =>
    rw [hformat] at h
    have hlast := (List.append_inj' h rfl).2
    exact absurd (List.singleton_inj.mp hlast).symm hch
  | cons b rest =>
    rw [hformat] at h
    exact ⟨rfl, by simpa using h⟩

/-- Behind the next character, if it is the NUL, the format is at its end. -/
theorem next_next_onFormat {before : Bytes}
    (h : format ++ [nul] = before ++ st.ch :: st.format) :
    st.next.overread = st.overread ∧
        (∃ before, format ++ [nul] = before ++ st.next.ch :: st.next.format) ∨
      st.next.overread = true ∧ st.next.state = .done ∧ st.ch = nul ∧ format = before := by
  unfold DoprState.next
  cases hformat : st.format with
  | nil =>
    rw [hformat] at h
    have hparts := List.append_inj' h rfl
    exact Or.inr ⟨rfl, rfl, (List.singleton_inj.mp hparts.2).symm, hparts.1⟩
  | cons b rest =>
    rw [hformat] at h
    exact Or.inl ⟨rfl, before ++ [st.ch], by simpa using h⟩

theorem Turns.inBounds (h : Turns maxlen st st') (hbounds : InBounds maxlen format st)
    (hch : st.ch ≠ 0) (hdone : st.state ≠ .done) : InBounds maxlen format st' := by
  have hon : st.overread = false ∧ ∃ before, format ++ [nul] = before ++ st.ch :: st.format := by
    rcases hbounds.onFormat with hon | ⟨-, hend, -⟩
    · exact hon
    · exact absurd hend hdone
  obtain ⟨hread, before, hformat⟩ := hon
  cases h with
  | stay hplace _ =>
    refine ⟨by rw [hplace.out]; exact hbounds.out, Or.inl ⟨hplace.overread.trans hread, before, ?_⟩⟩
    rw [hplace.ch, hplace.format]
    exact hformat
  | @next mid text hmid =>
    have hplace : format ++ [nul] = before ++ mid.ch :: mid.format := by
      rw [hmid.ch, hmid.format]
      exact hformat
    have hmidch : mid.ch ≠ 0 := by
      rw [hmid.ch]
      exact hch
    obtain ⟨hover, hnext⟩ := next_onFormat hplace hmidch
    refine ⟨?_, Or.inl ⟨?_, _, hnext⟩⟩
    · rw [next_out, hmid.out]
      exact length_outchs hbounds.out text
    · rw [hover, hmid.overread]
      exact hread
  | @twice mid hmid hwhich =>
    obtain ⟨hover, hnext⟩ := next_onFormat hformat hch
    have hplace : format ++ [nul] = (before ++ [st.ch]) ++ mid.ch :: mid.format := by
      rw [hmid.ch, hmid.format]
      exact hnext
    have hmidread : mid.overread = false := by rw [hmid.overread, hover, hread]
    refine ⟨?_, ?_⟩
    · rw [next_out, hmid.out, next_out]
      exact hbounds.out
    · rcases next_next_onFormat hplace with ⟨hsame, hthere⟩ | ⟨hbehind, hend, hnul, hall⟩
      · exact Or.inl ⟨hsame.trans hmidread, hthere⟩
      · right
        refine ⟨hbehind, hend, ?_⟩
        rcases hwhich with hw | hl
        · rw [hall, hw]
          simp
        · rw [hmid.ch, hl] at hnul
          exact absurd hnul (by decide)

theorem step_inBounds (hdone : st.state ≠ .done) (h : InBounds maxlen format st) :
    InBounds maxlen format (st.step maxlen fmtfp) := by
  unfold DoprState.step
  split_ifs with hlast
  · refine ⟨h.out, ?_⟩
    rcases h.onFormat with hon | ⟨hover, -, hw⟩
    · exact Or.inl hon
    · exact Or.inr ⟨hover, rfl, hw⟩
  · obtain ⟨hch, -⟩ := not_or.mp hlast
    exact (turn_turns hdone).inBounds h hch hdone

/-- The formatter comes to an end of every format, inside its bounds. -/
theorem dopr_inBounds (maxlen : Nat) (fmtfp : Nat → Int → Int → DpFlags → Bytes)
    (format : Bytes) (args : List VaArg) :
    ∃ st, dopr maxlen fmtfp format args = some st ∧ InBounds maxlen format st := by
  have hfirst : InBounds maxlen format
      (DoprState.next { format := format ++ [nul], ch := 0, args := args }) := by
    refine ⟨?_, Or.inl ?_⟩
    · rw [next_out]
      exact Nat.zero_le _
    · unfold DoprState.next
      cases format with
      | nil => exact ⟨rfl, [], rfl⟩
      | cons b rest => exact ⟨rfl, [], rfl⟩
  refine loop_ends (fun st hdone h => step_inBounds hdone h) ?_ hfirst
  have hlt := measure_next { format := format ++ [nul], ch := 0, args := args }
  simp only [List.length_append, List.length_singleton] at hlt
  omega

theorem nulIndex_lt (hmaxlen : maxlen < 2 ^ 64) (hpos : 0 < maxlen) (currlen : Nat) :
    nulIndex maxlen currlen < maxlen := by
  have hmod : (maxlen + 2 ^ 64 - 1) % 2 ^ 64 = maxlen - 1 := by omega
  unfold nulIndex
  rw [hmod]
  split <;> omega

theorem length_cstr_le (text : Bytes) : (cstr text).length ≤ text.length :=
  (List.takeWhile_sublist _).length_le

theorem length_written_text (st : DoprState) :
    (st.written maxlen).text.length ≤ nulIndex maxlen st.out.length := by
  unfold DoprState.written
  generalize nulIndex maxlen st.out.length = place
  exact (length_cstr_le _).trans (List.length_take_le place st.out)

/-- Whatever is printed, the stores stay inside a buffer that has a byte, and the text that
is left has room for its NUL; the format is read behind its NUL only where its last
character is a `w`. A buffer of size 0 is stored to all the same. -/
theorem vsnprintf_in_bounds (maxlen : Nat) (hmaxlen : maxlen < 2 ^ 64)
    (fmtfp : Nat → Int → Int → DpFlags → Bytes) (format : Bytes) (args : List VaArg) :
    ∃ st written, dopr maxlen fmtfp format args = some st ∧
      vsnprintf maxlen fmtfp format args = some written ∧
      ((∀ i ∈ written.stores, i < maxlen) ↔ 0 < maxlen) ∧
      (0 < maxlen → written.text.length < maxlen) ∧
      (st.overread = true → format.getLast? = some 119) := by
  obtain ⟨st, hdopr, hbounds⟩ := dopr_inBounds maxlen fmtfp format args
  refine ⟨st, st.written maxlen, hdopr, by rw [vsnprintf, hdopr, Option.map_some], ⟨?_, ?_⟩,
    ?_, ?_⟩
  · intro hstores
    exact hstores 0 List.mem_cons_self
  · intro hpos i hi
    have hnul := nulIndex_lt hmaxlen hpos st.out.length
    have hout := hbounds.out
    simp only [DoprState.written, List.mem_cons, List.mem_append, List.mem_range,
      List.not_mem_nil, or_false] at hi
    omega
  · intro hpos
    have hnul := nulIndex_lt hmaxlen hpos st.out.length
    exact (length_written_text st).trans_lt hnul
  · intro hover
    rcases hbounds.onFormat with ⟨hnot, -⟩ | ⟨-, -, hw⟩
    · rw [hnot] at hover
      contradiction
    · exact hw

/-- Eight bytes take the first seven characters of an answer. -/
theorem vsnprintf_in_bounds_eight : ∃ st written,
    dopr 8 (fun _ _ _ _ => []) (ascii "action=%s") [.string (some (ascii "DUNNO"))] = some st ∧
      vsnprintf 8 (fun _ _ _ _ => []) (ascii "action=%s") [.string (some (ascii "DUNNO"))] =
        some written ∧
      ((∀ i ∈ written.stores, i < 8) ↔ 0 < 8) ∧ (0 < 8 → written.text.length < 8) ∧
      (st.overread = true → (ascii "action=%s").getLast? = some 119) :=
  vsnprintf_in_bounds 8 (by decide) _ _ _

end Rblpolicyd.Snprintf
