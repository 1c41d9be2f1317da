import Mathlib.Tactic.TypeStar

/-!
# Progress towards a goal

Some steps of a system may be taken and others are bound to be: a thread that is not
blocked takes its next step sooner or later. A state leads to a goal when a step that
is bound to be taken is enabled until the goal is reached, and the steps that may be
taken meanwhile cannot put it off forever.

## Main definitions

* `Leads step may will goal s` — every way to go on from `s` ends in the goal

## Main results

* `leads_of_measure` — it is enough that the steps decrease a measure
* `Leads.congr` — another step function that agrees where an invariant holds leads there too
-/

namespace Semantics

variable {σ α : Type*}

/-- Every way to go on from `s` ends in the goal. -/
inductive Leads (step : σ → α → Option σ) (may will : σ → α → Prop) (goal : σ → Prop) : σ → Prop
  | here {s : σ} (h : goal s) : Leads step may will goal s
  | there {s : σ} (hwill : ∃ a t, will s a ∧ step s a = some t)
      (hmay : ∀ a t, may s a → step s a = some t → Leads step may will goal t) :
      Leads step may will goal s

variable {step : σ → α → Option σ} {may will : σ → α → Prop} {goal : σ → Prop} {s : σ}

/-- The induction on a measure that every step decreases in front of the goal. -/
theorem leads_of_measure (inv : σ → Prop) (measure : σ → Nat)
    (hwill : ∀ s, inv s → ¬ goal s → ∃ a t, will s a ∧ step s a = some t)
    (hmay : ∀ s a t, inv s → ¬ goal s → may s a → step s a = some t →
      inv t ∧ measure t < measure s)
    (hs : inv s) : Leads step may will goal s := by
  induction hn : measure s using Nat.strongRecOn generalizing s with
  | ind n ih =>
    by_cases hgoal : goal s
    · exact .here hgoal
    · refine .there (hwill s hs hgoal) fun a t hok hstep => ?_
      obtain ⟨ht, hlt⟩ := hmay s a t hs hgoal hok hstep
      exact ih (measure t) (hn ▸ hlt) ht rfl

/-- It leads to all that holds at the goal. -/
theorem Leads.imp {goal' : σ → Prop} (h : Leads step may will goal s)
    (himp : ∀ t, goal t → goal' t) : Leads step may will goal' s := by
  induction h with
  | here hgoal => exact .here (himp _ hgoal)
  | there hwill _ ih => exact .there hwill ih

/-- Under an invariant that the steps keep, only the steps from its states matter. -/
theorem Leads.congr (h : Leads step may will goal s) (step' : σ → α → Option σ)
    (inv : σ → Prop) (hs : inv s) (heq : ∀ s a, inv s → step' s a = step s a)
    (hpres : ∀ s a t, inv s → may s a → step s a = some t → inv t) :
    Leads step' may will (fun t => inv t ∧ goal t) s := by
  induction h with
  | here hgoal => exact .here ⟨hs, hgoal⟩
  | @there s hwill _ ih =>
    refine .there ?_ fun a t hok hstep => ?_
    · obtain ⟨a, t, hok, hstep⟩ := hwill
      exact ⟨a, t, hok, (heq s a hs).trans hstep⟩
    · rw [heq s a hs] at hstep
      exact ih a t hok hstep (hpres s a t hs hok hstep)

end Semantics
