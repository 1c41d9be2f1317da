import Rblpolicyd.Request.Receive

/-!
# Accesses to the receive buffer

`read_request` looks for the end of a request four bytes and two bytes before the
end of what it has, however little that is. Over any sequence of outcomes of
`select`, `realloc` and `read`, all the bytes it reads and writes belong to its
buffer exactly when its first read does not deliver fewer than four bytes: later
reads add to these, and the NUL is stored where a byte is left.

## Main definitions

* `FirstReadLong` — the first read delivers at least four bytes, or nothing

## Main results

* `Receiver.Looping.inside_step_iff` — what one iteration adds to the accesses
* `read_request_inside_iff` — when every access of a run is to a byte of the buffer
-/

namespace Rblpolicyd

open Libc Semantics

/-- The first read, if it delivers bytes, delivers at least four. -/
def FirstReadLong (outcomes : List SelectOutcome) : Prop :=
  ∀ block bytes, outcomes.head? = some (.ready (some block) (.data bytes)) → 4 ≤ bytes.length

theorem firstReadLong_append {outcomes : List SelectOutcome} (h : outcomes ≠ [])
    (more : List SelectOutcome) : FirstReadLong (outcomes ++ more) ↔ FirstReadLong outcomes := by
  rw [FirstReadLong, List.head?_append_of_ne_nil _ h]
  rfl

theorem firstReadLong_singleton_data (block : Block) (bytes : Bytes) :
    FirstReadLong [.ready (some block) (.data bytes)] ↔ 4 ≤ bytes.length := by
  constructor
  · intro h
    exact h block bytes rfl
  · intro hlong block' bytes' hhead
    obtain ⟨-, hdata⟩ := SelectOutcome.ready.inj (Option.some.inj hhead)
    exact ReadOutcome.data.inj hdata ▸ hlong

namespace Receiver

variable {r r' : Receiver} {text : Bytes} {stray : Int → Bytes → Bool} {outcome : SelectOutcome}
  {outcomes : List SelectOutcome}

/-- What the outcomes so far make of a loop that has not returned: either nothing was
read yet, or the text is as long as the first read made it, at least. -/
structure Looping (r : Receiver) (outcomes : List SelectOutcome) (text : Bytes) : Prop where
  holds : r.Holds text
  start : outcomes = [] → r = initial ∧ text = []
  long : outcomes ≠ [] → FirstReadLong outcomes → 4 ≤ text.length

/-- The first read and the reads behind it, in the number of bytes they leave. -/
theorem Looping.long_iff (h : r.Looping outcomes text) {block : Option Block} (bytes : Bytes)
    (hblock : outcomes = [] → block.isSome) :
    FirstReadLong outcomes ∧ 4 ≤ (text ++ bytes).length ↔
      FirstReadLong (outcomes ++ [.ready block (.data bytes)]) := by
  by_cases hfirst : outcomes = []
  · obtain ⟨fresh, rfl⟩ := Option.isSome_iff_exists.mp (hblock hfirst)
    obtain ⟨-, rfl⟩ := h.start hfirst
    subst hfirst
    rw [List.nil_append, List.nil_append, firstReadLong_singleton_data]
    exact and_iff_right (by simp [FirstReadLong])
  · rw [firstReadLong_append hfirst]
    refine and_iff_left_of_imp fun hlong => ?_
    have htext := h.long hfirst hlong
    rw [List.length_append]
    omega

/-- One iteration makes an access outside the buffer exactly when it is the first and
reads too little. -/
theorem Looping.inside_step_iff (h : r.Looping outcomes text)
    (hinside : r.Inside ↔ FirstReadLong outcomes) (hstep : r.step stray outcome = some r') :
    (r'.Inside ↔ FirstReadLong (outcomes ++ [outcome])) ∧
      (r'.returned.isSome ∨ ∃ text', r'.Looping (outcomes ++ [outcome]) text') := by
  rcases h.holds.step_cases hstep with
    ⟨block, bytes, g, rfl, hgrow, hpos, hfits, rfl⟩ | ⟨hnone, hreturned, hsame⟩
  · obtain ⟨hready, haccesses⟩ := h.holds.grow_eq_some hgrow
    have hblock : outcomes = [] → block.isSome := by
      -- without memory the first growth fails
      intro hfirst
      obtain ⟨rfl, -⟩ := h.start hfirst
      cases block with
      | none => cases hgrow
      | some fresh => rfl
    have hlong := h.long_iff bytes hblock
    refine ⟨?_, ?_⟩
    · rw [hready.inside_receive_iff stray hfits, Inside, haccesses, ← hlong]
      exact and_congr_left fun _ => hinside
    · rcases hready.receive_spec stray hfits with ⟨-, b, hreturned, -⟩ | ⟨-, hholds⟩
      · left
        rw [hreturned]
        rfl
      · right
        refine ⟨text ++ bytes, hholds, by simp, fun _ hfirst => ?_⟩
        exact (hlong.mpr hfirst).2
  · refine ⟨hsame.trans (hinside.trans ?_), Or.inl hreturned⟩
    by_cases hfirst : outcomes = []
    · obtain ⟨-, rfl⟩ := h.start hfirst
      subst hfirst
      refine iff_of_true (by simp [FirstReadLong]) fun block bytes hhead => ?_
      -- the first growth has its memory, so it does not return
      obtain ⟨g, hgrow⟩ := h.holds.exists_grow (by norm_num) block
      rw [hnone _ _ (Option.some.inj hhead)] at hgrow
      cases hgrow
    · exact (firstReadLong_append hfirst _).symm

end Receiver

/-- Over any run of the loop: every byte of the buffer that is read or written has an
index inside the buffer exactly when the first read, if it delivers anything, delivers at
least four bytes. -/
theorem read_request_inside_iff (stray : Int → Bytes → Bool) :
    ∀ outcomes r, Run (Receiver.step stray) (fun _ _ => True) .initial outcomes r →
      ((∀ a ∈ r.accesses, a.Inside) ↔ FirstReadLong outcomes) := by
  intro outcomes r hrun
  have hboth : (r.Inside ↔ FirstReadLong outcomes) ∧
      (r.returned.isSome ∨ ∃ text, r.Looping outcomes text) := by
    induction hrun with
    | nil =>
      refine ⟨iff_of_true (by simp [Receiver.Inside, Receiver.initial]) ?_, Or.inr ⟨[], ?_⟩⟩
      · simp [FirstReadLong]
      · exact ⟨Receiver.initial_holds, fun _ => ⟨rfl, rfl⟩, fun hne => absurd rfl hne⟩
    | snoc _ _ hstep ih =>
      obtain ⟨hinside, hreturned | ⟨text, hlooping⟩⟩ := ih
      · unfold Receiver.step at hstep
        rw [if_pos hreturned] at hstep
        cases hstep
      · exact hlooping.inside_step_iff hinside hstep
  exact hboth.1

/-- A line in one segment, and a timeout while the rest is awaited. -/
theorem read_request_inside_long_segment :
    ∃ r, Run (Receiver.step fun _ _ => false) (fun _ _ => True) .initial
        [.ready (some fun _ => 0) (.data (ascii "request=x\n")), .timeout] r ∧
      ∀ a ∈ r.accesses, a.Inside := by
  have hexec : ∃ r, Run (Receiver.step fun _ _ => false) (fun _ _ => True) .initial
      [.ready (some fun _ => 0) (.data (ascii "request=x\n")), .timeout] r ∧ True :=
    exists_run_of_exec (by decide)
  obtain ⟨r, hrun, -⟩ := hexec
  refine ⟨r, hrun, (read_request_inside_iff _ _ _ hrun).mpr ?_⟩
  exact (firstReadLong_append (List.cons_ne_nil _ []) _).mpr
    ((firstReadLong_singleton_data _ _).mpr (by decide))

/-- A client that sends its request byte by byte: the first comparison starts three bytes
before the buffer. -/
theorem read_request_before_buffer :
    ∃ r, Run (Receiver.step fun _ _ => false) (fun _ _ => True) .initial
        [.ready (some fun _ => 0) (.data (ascii "r"))] r ∧
      ¬ ∀ a ∈ r.accesses, a.Inside :=
  exists_run_of_exec (by decide)

end Rblpolicyd
