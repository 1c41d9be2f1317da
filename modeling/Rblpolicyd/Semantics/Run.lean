import Mathlib.Tactic.TypeStar

/-!
# Runs of a system of guarded steps

A system is given by a partial step function on states and actions. A run takes one
enabled action after the other; it is labelled with the actions, and each of them
meets a condition in the state where it is taken. Which thread moves, and how the
calls it makes turn out, is part of the action, so a run is one interleaving.

## Main definitions

* `Run step ok s w t` — the actions `w` lead from `s` to `t`, all of them `ok`
* `exec` — the state after a list of actions

## Main results

* `Run.invariant` — what holds initially and is preserved holds in every state reached
* `Run.simulate` — a run seen through a map of the states is a run, with some steps left out
* `run_of_exec`, `exists_run_of_exec` — executing actions is a run
-/

namespace Semantics

variable {σ α : Type*}

/-- The actions `w` lead from `s` to `t`, and each is `ok` where it is taken. -/
inductive Run (step : σ → α → Option σ) (ok : σ → α → Prop) (s : σ) : List α → σ → Prop
  | nil : Run step ok s [] s
  | snoc {w : List α} {t u : σ} {a : α} :
      Run step ok s w t → ok t a → step t a = some u → Run step ok s (w ++ [a]) u

/-- The state after a list of actions, if they are enabled and `ok` one after the other. -/
def exec (step : σ → α → Option σ) (ok : σ → α → Prop) [∀ s a, Decidable (ok s a)] (s : σ) :
    List α → Option σ
  | [] => some s
  | a :: w => if ok s a then (step s a).bind fun t => exec step ok t w else none

variable {step : σ → α → Option σ} {ok : σ → α → Prop} {s t u : σ} {w v : List α}

theorem Run.append (h : Run step ok s w t) (h' : Run step ok t v u) :
    Run step ok s (w ++ v) u := by
  induction h' with
  | nil => simpa using h
  | snoc _ hok hstep ih =>
    rw [← List.append_assoc]
    exact .snoc ih hok hstep

theorem Run.cons {a : α} (hok : ok s a) (hstep : step s a = some t) (h : Run step ok t w u) :
    Run step ok s (a :: w) u := by
  have hfirst : Run step ok s [a] t := .snoc (w := []) .nil hok hstep
  exact hfirst.append h

theorem Run.mono {ok' : σ → α → Prop} (himp : ∀ s a, ok s a → ok' s a)
    (h : Run step ok s w t) : Run step ok' s w t := by
  induction h with
  | nil => exact .nil
  | snoc _ hok hstep ih => exact .snoc ih (himp _ _ hok) hstep

/-- The actions of a run determine where it ends. -/
theorem Run.unique (h : Run step ok s w t) (h' : Run step ok s w u) : t = u := by
  induction h generalizing u with
  | nil =>
    generalize hw : [] = w at h'
    cases h' with
    | nil => rfl
    | snoc _ _ _ => simp at hw
  | @snoc w t t' a _ _ hstep ih =>
    generalize hw : w ++ [a] = v at h'
    cases h' with
    | nil => simp at hw
    | snoc h' _ hstep' =>
      obtain ⟨rfl, hlast⟩ := List.append_inj' hw rfl
      obtain rfl := List.singleton_inj.mp hlast
      obtain rfl := ih h'
      exact Option.some.inj (hstep.symm.trans hstep')

/-- The induction over a run: an initial property that steps preserve holds in the end. -/
theorem Run.invariant {P : σ → Prop} (h : Run step ok s w t) (hinit : P s)
    (hpres : ∀ t a u, P t → ok t a → step t a = some u → P u) : P t := by
  induction h with
  | nil => exact hinit
  | snoc _ hok hstep ih => exact hpres _ _ _ ih hok hstep

/-- Through a map of the states each step is a step of the other system or none at all. -/
theorem Run.simulate {τ β : Type*} {step' : τ → β → Option τ} {ok' : τ → β → Prop}
    (f : σ → τ) (h : Run step ok s w t)
    (hsim : ∀ t a u, ok t a → step t a = some u →
      f u = f t ∨ ∃ b, ok' (f t) b ∧ step' (f t) b = some (f u)) :
    ∃ w', Run step' ok' (f s) w' (f t) := by
  induction h with
  | nil => exact ⟨[], .nil⟩
  | snoc _ hok hstep ih =>
    obtain ⟨w', hrun⟩ := ih
    rcases hsim _ _ _ hok hstep with hsame | ⟨b, hok', hstep'⟩
    · exact ⟨w', hsame ▸ hrun⟩
    · exact ⟨w' ++ [b], hrun.snoc hok' hstep'⟩

theorem run_of_exec [∀ s a, Decidable (ok s a)] (h : exec step ok s w = some t) :
    Run step ok s w t := by
  induction w generalizing s with
  | nil =>
    obtain rfl := Option.some.inj h
    exact .nil
  | cons a w ih =>
    obtain ⟨hok, h⟩ := Option.ite_none_right_eq_some.mp h
    obtain ⟨m, hstep, hrest⟩ := Option.bind_eq_some_iff.mp h
    exact .cons hok hstep (ih hrest)

/-- A run that is found by executing its actions, with a property of its end. -/
theorem exists_run_of_exec {P : σ → Prop} [DecidablePred P] [∀ s a, Decidable (ok s a)]
    (h : (exec step ok s w).any (fun t => P t) = true) : ∃ t, Run step ok s w t ∧ P t := by
  obtain ⟨t, hexec, hP⟩ := (Option.any_eq_true _ _).mp h
  exact ⟨t, run_of_exec hexec, of_decide_eq_true hP⟩

end Semantics
