import Rblpolicyd.Request.Attributes

/-!
# Where the value of `client_address` ends

`parse_request` looks for the end of the value twice: for a carriage return in
the whole rest of the request, and for a line feed only when there is none. It
prefers one byte to the other and not the earlier to the later, so it agrees with
the first line end exactly when no line feed stands before the first carriage
return.

## Main definitions

* `IsLineEnd`, `firstLine` — the bytes that end a line, and the text up to one
* `CrBeforeLf` — the search that is made first also finds the earlier byte

## Main results

* `cutValue_eq_firstLine_iff` — when the two searches find the first line end
* `parseRequest_firstLine_iff` — when the value is cut there, and what follows
-/

namespace Rblpolicyd

open Libc

/-- A byte that ends a line. -/
def IsLineEnd (b : UInt8) : Prop := b = cr ∨ b = lf

instance : DecidablePred IsLineEnd :=
  fun b => inferInstanceAs (Decidable (b = cr ∨ b = lf))

/-- The text up to its first line end, `none` if it has none. -/
def firstLine (text : Bytes) : Option Bytes :=
  if ∃ b ∈ text, IsLineEnd b then some (text.takeWhile fun b => ¬ IsLineEnd b) else none

/-- No line feed stands before the first carriage return, if there is one. -/
def CrBeforeLf (text : Bytes) : Prop :=
  cr ∈ text → lf ∉ text.takeWhile (· ≠ cr)

instance (text : Bytes) : Decidable (CrBeforeLf text) :=
  inferInstanceAs (Decidable (cr ∈ text → lf ∉ text.takeWhile (· ≠ cr)))

/-- The two searches of `parse_request` over the text behind the key, and the copy of
what stands before the byte they find. -/
def cutValue (text : Bytes) : Option Bytes :=
  ((strchr text cr).or (strchr text lf)).map fun p => text.take (text.length - p.length)

/-- `parse_request` is the search for the key and the cut behind it. -/
theorem parseRequest_eq (mallocOk : Bool) (req : Bytes) :
    parseRequest mallocOk req =
      (strstr req clientKey).bind fun start =>
        if mallocOk then cutValue (start.drop 15) else none := by
  unfold parseRequest cutValue
  cases strstr req clientKey with
  | none => rfl
  | some start =>
    dsimp only [Option.bind_some]
    cases (strchr (start.drop 15) cr).or (strchr (start.drop 15) lf) with
    | none => simp
    | some p => rfl

/-! ### The first line end -/

theorem not_isLineEnd_iff {b : UInt8} : ¬ IsLineEnd b ↔ b ≠ cr ∧ b ≠ lf := not_or

theorem firstLine_append_cons {value : Bytes} {e : UInt8}
    (hvalue : ∀ b ∈ value, ¬ IsLineEnd b) (he : IsLineEnd e) (rest : Bytes) :
    firstLine (value ++ e :: rest) = some value := by
  have hmem : ∃ b ∈ value ++ e :: rest, IsLineEnd b := ⟨e, by simp, he⟩
  rw [firstLine, if_pos hmem, List.takeWhile_append_of_pos (by simpa using hvalue),
    List.takeWhile_cons_of_neg (by simpa using he), List.append_nil]

theorem firstLine_eq_none {text : Bytes} (h : ∀ b ∈ text, ¬ IsLineEnd b) :
    firstLine text = none := by
  apply if_neg
  rintro ⟨b, hb, he⟩
  exact h b hb he

/-- A text with a line end has a first one. -/
theorem firstLine_cases (text : Bytes) :
    (∀ b ∈ text, ¬ IsLineEnd b) ∨
      ∃ value e rest, text = value ++ e :: rest ∧ (∀ b ∈ value, ¬ IsLineEnd b) ∧ IsLineEnd e := by
  induction text with
  | nil => left; simp
  | cons b text ih =>
    by_cases hb : IsLineEnd b
    · right
      exact ⟨[], b, text, rfl, by simp, hb⟩
    · rcases ih with hnone | ⟨value, e, rest, rfl, hvalue, he⟩
      · left
        intro x hx
        rcases List.mem_cons.mp hx with rfl | hx
        · exact hb
        · exact hnone x hx
      · right
        refine ⟨b :: value, e, rest, rfl, ?_, he⟩
        intro x hx
        rcases List.mem_cons.mp hx with rfl | hx
        · exact hb
        · exact hvalue x hx

/-- What is returned holds no line end. -/
theorem not_isLineEnd_of_firstLine {text value : Bytes} (h : firstLine text = some value) :
    ∀ b ∈ value, ¬ IsLineEnd b := by
  rcases firstLine_cases text with hnone | ⟨value', e, rest, rfl, hvalue, he⟩
  · rw [firstLine_eq_none hnone] at h
    cases h
  · rw [firstLine_append_cons hvalue he] at h
    obtain rfl := Option.some.inj h
    exact hvalue

/-! ### The two searches -/

/-- With a carriage return in the text the value is cut at the first one. -/
theorem cutValue_of_cr {value : Bytes} (h : cr ∉ value) (rest : Bytes) :
    cutValue (value ++ cr :: rest) = some value := by
  rw [cutValue, strchr_append_cons h, Option.some_or, Option.map_some]
  simp

/-- Without one it is cut at the first line feed. -/
theorem cutValue_of_lf {value rest : Bytes} (hcr : cr ∉ value ++ lf :: rest) (h : lf ∉ value) :
    cutValue (value ++ lf :: rest) = some value := by
  rw [cutValue, strchr_eq_none_iff.mpr hcr, strchr_append_cons h, Option.none_or, Option.map_some]
  simp

theorem cutValue_eq_none {text : Bytes} (hcr : cr ∉ text) (hlf : lf ∉ text) :
    cutValue text = none := by
  rw [cutValue, strchr_eq_none_iff.mpr hcr, strchr_eq_none_iff.mpr hlf]
  rfl

/-- The two searches agree with the first line end when the byte searched for first
is also the first to come. -/
theorem cutValue_eq_firstLine_iff (text : Bytes) :
    cutValue text = firstLine text ↔ CrBeforeLf text := by
  by_cases hcr : cr ∈ text
  · obtain ⟨value, rest, rfl, hvalue⟩ := List.eq_append_cons_of_mem hcr
    have hto : (value ++ cr :: rest).takeWhile (· ≠ cr) = value := by
      rw [List.takeWhile_append_of_pos, List.takeWhile_cons_of_neg (by simp), List.append_nil]
      intro b hb
      simpa using ne_of_mem_of_not_mem hb hvalue
    rw [cutValue_of_cr hvalue, CrBeforeLf, hto]
    refine ⟨fun h _ hlf => ?_, fun h => ?_⟩
    · exact not_isLineEnd_of_firstLine h.symm lf hlf (Or.inr rfl)
    · refine (firstLine_append_cons (fun b hb => ?_) (Or.inl rfl) rest).symm
      refine not_isLineEnd_iff.mpr ⟨ne_of_mem_of_not_mem hb hvalue, ?_⟩
      exact ne_of_mem_of_not_mem hb (h hcr)
  · have hcond : CrBeforeLf text := fun h => absurd h hcr
    refine iff_of_true ?_ hcond
    by_cases hlf : lf ∈ text
    · obtain ⟨value, rest, rfl, hvalue⟩ := List.eq_append_cons_of_mem hlf
      rw [cutValue_of_lf hcr hvalue]
      refine (firstLine_append_cons (fun b hb => ?_) (Or.inr rfl) rest).symm
      refine not_isLineEnd_iff.mpr ⟨?_, ne_of_mem_of_not_mem hb hvalue⟩
      exact ne_of_mem_of_not_mem (List.mem_append_left _ hb) hcr
    · rw [cutValue_eq_none hcr hlf, firstLine_eq_none]
      intro b hb
      exact not_isLineEnd_iff.mpr ⟨ne_of_mem_of_not_mem hb hcr, ne_of_mem_of_not_mem hb hlf⟩

/-! ### The value of a request -/

/-- The text behind the first key of a request, `none` without a key. -/
def behindKey (req : Bytes) : Option Bytes :=
  (strstr req clientKey).map fun start => start.drop 15

/-- The value is cut at the first line end: no line feed stands before the first
carriage return behind the key. Without memory for the value it must not be due. -/
def CutAtLineEnd (mallocOk : Bool) (text : Bytes) : Prop :=
  if mallocOk then CrBeforeLf text else ∀ b ∈ text, ¬ IsLineEnd b

/-- Text behind the request does not move its first key. -/
theorem behindKey_append {req text : Bytes} (h : behindKey req = some text) (tail : Bytes) :
    behindKey (req ++ tail) = some (text ++ tail) := by
  rw [behindKey, Option.map_eq_some_iff] at h
  obtain ⟨start, hstart, rfl⟩ := h
  have hlen : 15 ≤ start.length := (strstr_spec hstart).2.length_le
  rw [behindKey, strstr_append hstart, Option.map_some, List.drop_append_of_le_length hlen]

theorem parseRequest_of_behindKey {req text : Bytes} (h : behindKey req = some text)
    (mallocOk : Bool) :
    parseRequest mallocOk req = if mallocOk then cutValue text else none := by
  rw [behindKey, Option.map_eq_some_iff] at h
  obtain ⟨start, hstart, rfl⟩ := h
  rw [parseRequest_eq, hstart, Option.bind_some]

theorem parseRequest_eq_firstLine_iff {req text : Bytes} (h : behindKey req = some text)
    (mallocOk : Bool) :
    parseRequest mallocOk req = firstLine text ↔ CutAtLineEnd mallocOk text := by
  rw [parseRequest_of_behindKey h, CutAtLineEnd]
  cases mallocOk with
  | true => exact cutValue_eq_firstLine_iff text
  | false =>
    simp only [Bool.false_eq_true, if_false]
    refine ⟨fun hnone b hb he => ?_, fun hnone => (firstLine_eq_none hnone).symm⟩
    rw [firstLine, if_pos ⟨b, hb, he⟩] at hnone
    cases hnone

/-- The value is what stands before the first line end behind the key exactly when no
line feed stands before the first carriage return there. Then it holds no line end, and
text behind the line end does not change it. -/
theorem parseRequest_firstLine_iff (mallocOk : Bool) :
    (∀ req text, behindKey req = some text →
      (parseRequest mallocOk req = firstLine text ↔ CutAtLineEnd mallocOk text)) ∧
    (∀ req text, behindKey req = some text → CutAtLineEnd mallocOk text →
      ∀ value, parseRequest mallocOk req = some value → cr ∉ value ∧ lf ∉ value) ∧
    ∀ upTo text, behindKey upTo = some text → (∃ b ∈ text, IsLineEnd b) →
      ∀ tail tail', CutAtLineEnd mallocOk (text ++ tail) →
        CutAtLineEnd mallocOk (text ++ tail') →
        parseRequest mallocOk (upTo ++ tail) = parseRequest mallocOk (upTo ++ tail') := by
  refine ⟨fun req text h => parseRequest_eq_firstLine_iff h mallocOk, ?_, ?_⟩
  · intro req text h hcut value hvalue
    rw [(parseRequest_eq_firstLine_iff h mallocOk).mpr hcut] at hvalue
    have hplain := not_isLineEnd_of_firstLine hvalue
    exact ⟨fun hcr => hplain cr hcr (Or.inl rfl), fun hlf => hplain lf hlf (Or.inr rfl)⟩
  · intro upTo text h hend tail tail' hcut hcut'
    rcases firstLine_cases text with hnone | ⟨value, e, rest, rfl, hvalue, he⟩
    · obtain ⟨b, hb, he⟩ := hend
      exact absurd he (hnone b hb)
    · have hfirst : ∀ more, firstLine (value ++ e :: rest ++ more) = some value := by
        intro more
        rw [List.append_assoc, List.cons_append]
        exact firstLine_append_cons hvalue he _
      rw [(parseRequest_eq_firstLine_iff (behindKey_append h tail) mallocOk).mpr hcut,
        (parseRequest_eq_firstLine_iff (behindKey_append h tail') mallocOk).mpr hcut',
        hfirst, hfirst]

/-- A request whose first lines end in a line feed and a later one in both bytes. -/
def mixedRequest : Bytes := ascii "client_address=10.0.0.1\nhelo_name=mx\r\n\n"

/-- The value runs over the end of its line: the carriage return of a later line is
searched for first. -/
theorem parseRequest_over_line_end :
    behindKey mixedRequest = some (ascii "10.0.0.1\nhelo_name=mx\r\n\n") ∧
      parseRequest true mixedRequest = some (ascii "10.0.0.1\nhelo_name=mx") ∧
      ¬ ∀ req text, behindKey req = some text → parseRequest true req = firstLine text := by
  refine ⟨by decide, by decide, ?_⟩
  intro h
  have hvalue := h mixedRequest (ascii "10.0.0.1\nhelo_name=mx\r\n\n") (by decide)
  exact absurd hvalue (by decide)

/-- The lines of a request as the policy client sends them end in a line feed only. -/
theorem crBeforeLf_requestText (attrs : List Attribute) {text : Bytes}
    (h : behindKey (requestText attrs) = some text) : CrBeforeLf text := by
  rw [behindKey, Option.map_eq_some_iff] at h
  obtain ⟨start, hstart, rfl⟩ := h
  intro hcr
  have hmem := (strstr_spec hstart).1.subset (List.mem_of_mem_drop hcr)
  exact absurd hmem (cr_notMem_requestText attrs)

end Rblpolicyd
