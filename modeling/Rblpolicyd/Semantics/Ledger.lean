import Mathlib.Data.Set.Insert
import Mathlib.Logic.Function.Basic
import Rblpolicyd.Semantics.Run

/-!
# Ledgers of what is taken and given back

What a program takes it has to give back, and only once. A ledger counts how often each
resource is held, and lists what was given back without being held. A program's code is a list
of changes; where they may be made one after the other, they exchange the set of what is held
in front of the code for the set of what is held behind it. In a system whose steps all do so,
what is held in any run is the set of its state.

## Main definitions

* `Ledger`, `Ledger.acquire`, `Ledger.release` — a ledger, and one entry in it
* `Change`, `Ledger.changes` — the entries that a piece of code makes
* `Ledger.Owns` — just the resources in a set are held, each once, and there was no fault
* `Exchanges` — the changes exchange one set for another
* `WithLedger`, `WithLedger.step` — a system whose steps make entries

## Main results

* `Ledger.Owns.acquire`, `Ledger.Owns.release` — what one entry makes of the set
* `Ledger.Owns.changes` — what a list of them makes of it
* `WithLedger.owns_run` — where all steps exchange the sets of their states, so do runs
-/

namespace Semantics

/-- How often each resource is held; `faults` was given back without being held. -/
structure Ledger (ρ : Type*) where
  held : ρ → Nat := fun _ => 0
  faults : List ρ := []

/-- A resource is taken or given back. -/
inductive Change (ρ : Type*)
  | acquire (r : ρ)
  | release (r : ρ)
  deriving DecidableEq

variable {ρ : Type*}

namespace Ledger

variable [DecidableEq ρ]

def acquire (l : Ledger ρ) (r : ρ) : Ledger ρ :=
  { l with held := Function.update l.held r (l.held r + 1) }

def release (l : Ledger ρ) (r : ρ) : Ledger ρ :=
  if l.held r = 0 then { l with faults := l.faults ++ [r] }
  else { l with held := Function.update l.held r (l.held r - 1) }

def change (l : Ledger ρ) : Change ρ → Ledger ρ
  | .acquire r => l.acquire r
  | .release r => l.release r

/-- The changes, one after the other. -/
def changes (l : Ledger ρ) (cs : List (Change ρ)) : Ledger ρ := cs.foldl change l

end Ledger

/-! ### What is held -/

/-- Just the resources in the set are held, each once, and nothing else was given back. -/
structure Ledger.Owns (l : Ledger ρ) (taken : Set ρ) : Prop where
  holds : ∀ r ∈ taken, l.held r = 1
  lacks : ∀ r ∉ taken, l.held r = 0
  faults : l.faults = []

/-- The changes may be made one after the other, and exchange one set for the other. -/
def Exchanges (taken : Set ρ) : List (Change ρ) → Set ρ → Prop
  | [], taken' => taken = taken'
  | .acquire r :: cs, taken' => r ∉ taken ∧ Exchanges (insert r taken) cs taken'
  | .release r :: cs, taken' => r ∈ taken ∧ Exchanges (taken \ {r}) cs taken'

variable {l : Ledger ρ} {taken taken' taken'' : Set ρ} {cs cs' : List (Change ρ)} {r : ρ}

namespace Ledger.Owns

theorem empty : Owns ({} : Ledger ρ) ∅ := ⟨fun _ h => h.elim, fun _ _ => rfl, rfl⟩

theorem held_eq (h : l.Owns taken) (r : ρ) [Decidable (r ∈ taken)] :
    l.held r = if r ∈ taken then 1 else 0 := by
  split_ifs with hr
  · exact h.holds r hr
  · exact h.lacks r hr

variable [DecidableEq ρ]

theorem acquire (h : l.Owns taken) (hr : r ∉ taken) : (l.acquire r).Owns (insert r taken) where
  holds q hq := by
    rcases hq with rfl | hq
    · simp [Ledger.acquire, h.lacks q hr]
    · have hne : q ≠ r := by
        rintro rfl
        exact hr hq
      simp [Ledger.acquire, hne, h.holds q hq]
  lacks q hq := by
    rw [Set.mem_insert_iff, not_or] at hq
    simp [Ledger.acquire, hq.1, h.lacks q hq.2]
  faults := h.faults

theorem release_eq (h : l.Owns taken) (hr : r ∈ taken) :
    l.release r = { l with held := Function.update l.held r 0 } := by
  simp [Ledger.release, h.holds r hr]

theorem release (h : l.Owns taken) (hr : r ∈ taken) : (l.release r).Owns (taken \ {r}) := by
  rw [h.release_eq hr]
  refine ⟨fun q hq => ?_, fun q hq => ?_, h.faults⟩
  · have hne : q ≠ r := hq.2
    simp [hne, h.holds q hq.1]
  · by_cases hne : q = r
    · simp [hne]
    · have hout : q ∉ taken := fun hin => hq ⟨hin, hne⟩
      simp [hne, h.lacks q hout]

/-- A list of changes makes of the set what it is exchanged for. -/
theorem changes (h : l.Owns taken) (hchanges : Exchanges taken cs taken') :
    (l.changes cs).Owns taken' := by
  induction cs generalizing l taken with
  | nil => exact hchanges ▸ h
  | cons c cs ih =>
    cases c with
    | acquire r => exact ih (h.acquire hchanges.1) hchanges.2
    | release r => exact ih (h.release hchanges.1) hchanges.2

end Ledger.Owns

/-! ### Lists of changes -/

theorem Exchanges.append (h : Exchanges taken cs taken') (h' : Exchanges taken' cs' taken'') :
    Exchanges taken (cs ++ cs') taken'' := by
  induction cs generalizing taken with
  | nil => exact h ▸ h'
  | cons c cs ih =>
    cases c with
    | acquire r => exact ⟨h.1, ih h.2⟩
    | release r => exact ⟨h.1, ih h.2⟩

/-- Resources that are not held are taken. -/
theorem Exchanges.acquireAll {rs : List ρ} (hnodup : rs.Nodup) (hout : ∀ r ∈ rs, r ∉ taken) :
    Exchanges taken (rs.map .acquire) (taken ∪ {r | r ∈ rs}) := by
  induction rs generalizing taken with
  | nil => simp [Exchanges]
  | cons r rs ih =>
    obtain ⟨hr, hnodup⟩ := List.nodup_cons.mp hnodup
    refine ⟨hout r List.mem_cons_self, ?_⟩
    have hrest : ∀ q ∈ rs, q ∉ insert r taken := by
      rintro q hq (rfl | hin)
      · exact hr hq
      · exact hout q (List.mem_cons_of_mem _ hq) hin
    have hset : taken ∪ {q | q ∈ r :: rs} = insert r taken ∪ {q | q ∈ rs} := by
      ext q
      simp only [Set.mem_union, Set.mem_insert_iff, Set.mem_ofPred_eq, List.mem_cons]
      grind
    rw [hset]
    exact ih hnodup hrest

/-- Resources that are held are given back. -/
theorem Exchanges.releaseAll {rs : List ρ} (hnodup : rs.Nodup) (hin : ∀ r ∈ rs, r ∈ taken) :
    Exchanges taken (rs.map .release) (taken \ {r | r ∈ rs}) := by
  induction rs generalizing taken with
  | nil =>
    ext q
    simp
  | cons r rs ih =>
    obtain ⟨hr, hnodup⟩ := List.nodup_cons.mp hnodup
    refine ⟨hin r List.mem_cons_self, ?_⟩
    have hrest : ∀ q ∈ rs, q ∈ taken \ {r} := by
      intro q hq
      refine ⟨hin q (List.mem_cons_of_mem _ hq), ?_⟩
      rintro rfl
      exact hr hq
    have hset : taken \ {q | q ∈ r :: rs} = (taken \ {r}) \ {q | q ∈ rs} := by
      ext q
      simp only [Set.mem_sdiff, Set.mem_singleton_iff, Set.mem_ofPred_eq, List.mem_cons]
      grind
    rw [hset]
    exact ih hnodup hrest

/-! ### Runs -/

/-- A state of a system with a ledger. -/
structure WithLedger (σ ρ : Type*) where
  state : σ
  ledger : Ledger ρ

namespace WithLedger

variable {σ α : Type*} {next : σ → α → Option σ} {changes : σ → α → List (Change ρ)}
  {ok : WithLedger σ ρ → α → Prop} {s t : WithLedger σ ρ} {w : List α}

/-- A step of the system, with the entries of the code behind it. -/
def step [DecidableEq ρ] (next : σ → α → Option σ) (changes : σ → α → List (Change ρ))
    (s : WithLedger σ ρ) (a : α) : Option (WithLedger σ ρ) :=
  (next s.state a).map fun t => ⟨t, s.ledger.changes (changes s.state a)⟩

variable [DecidableEq ρ]

theorem step_cases {a : α} (h : s.step next changes a = some t) :
    next s.state a = some t.state ∧ t.ledger = s.ledger.changes (changes s.state a) := by
  obtain ⟨u, hstep, rfl⟩ := Option.map_eq_some_iff.mp h
  exact ⟨hstep, rfl⟩

/-- Without its ledger a run is one of the system. -/
theorem run_state (h : Run (WithLedger.step next changes) ok s w t) :
    Run next (fun _ _ => True) s.state w t.state := by
  induction h with
  | nil => exact .nil
  | snoc _ _ hstep ih => exact ih.snoc trivial (step_cases hstep).1

/-- Where all steps exchange the set of a state for that of the next one, what is held is in
every state reached the set of this state. -/
theorem owns_run {Inv : σ → Prop} {taken : σ → Set ρ}
    (h : Run (WithLedger.step next changes) ok s w t) (hinv : Inv s.state)
    (hstep : ∀ s a t, Inv s → next s a = some t →
      Inv t ∧ Exchanges (taken s) (changes s a) (taken t))
    (howns : s.ledger.Owns (taken s.state)) : t.ledger.Owns (taken t.state) := by
  have hboth : Inv t.state ∧ t.ledger.Owns (taken t.state) := by
    refine h.invariant (P := fun t => Inv t.state ∧ t.ledger.Owns (taken t.state))
      ⟨hinv, howns⟩ ?_
    rintro t a u ⟨hinv, howns⟩ - hu
    obtain ⟨hnext, hledger⟩ := step_cases hu
    obtain ⟨hinv', hchanges⟩ := hstep _ a _ hinv hnext
    exact ⟨hinv', hledger ▸ howns.changes hchanges⟩
  exact hboth.2

end WithLedger

end Semantics
