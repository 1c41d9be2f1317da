import Mathlib.Logic.Relation

/-!
# Running a program until it has a result

A program that runs on its own is a partial step function; a state that has a result
takes no step. Running it with fuel returns the result as soon as the fuel is enough,
so a chain of steps to a state with a result is what such a run is proved by.

## Main definitions

* `Reaches` — the steps lead from one state to another
* `runUntil` — take steps until there is a result, as long as there is fuel

## Main results

* `runUntil_of_reaches` — enough fuel gives the result
-/

namespace Semantics

variable {σ ρ : Type*}

/-- The steps lead from one state to another. -/
abbrev Reaches (step : σ → Option σ) : σ → σ → Prop :=
  Relation.ReflTransGen fun s t => step s = some t

/-- Take steps until there is a result. -/
def runUntil (step : σ → Option σ) (result : σ → Option ρ) : Nat → σ → Option ρ
  | 0, s => result s
  | fuel + 1, s =>
    match result s with
    | some r => some r
    | none => (step s).bind (runUntil step result fuel)

variable {step : σ → Option σ} {result : σ → Option ρ} {s t : σ} {r : ρ}

theorem runUntil_of_result (h : result s = some r) (fuel : Nat) :
    runUntil step result fuel s = some r := by
  cases fuel with
  | zero => exact h
  | succ fuel => rw [runUntil, h]

/-- Enough fuel gives the result. -/
theorem runUntil_of_reaches (hstop : ∀ s r, result s = some r → step s = none)
    (hreach : Reaches step s t) (hresult : result t = some r) :
    ∃ n, ∀ fuel ≥ n, runUntil step result fuel s = some r := by
  induction hreach using Relation.ReflTransGen.head_induction_on with
  | refl => exact ⟨0, fun fuel _ => runUntil_of_result hresult fuel⟩
  | @head s u hstep _ ih =>
    obtain ⟨n, hn⟩ := ih
    have hnone : result s = none := by
      cases hs : result s with
      | none => rfl
      | some r =>
        rw [hstop s r hs] at hstep
        cases hstep
    refine ⟨n + 1, fun fuel hfuel => ?_⟩
    obtain ⟨m, rfl⟩ := Nat.exists_eq_add_of_lt hfuel
    rw [runUntil, hnone]
    change (step s).bind _ = _
    rw [hstep, Option.bind_some]
    exact hn (n + m) (Nat.le_add_right n m)

end Semantics
