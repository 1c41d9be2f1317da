import Mathlib.Logic.Function.Basic
import Mathlib.Tactic.TypeStar

/-!
# Mutexes and the threads that hold them

A mutex is the optional thread that owns it. Which threads hold it is also read off
from where they are in their code; the two agree in every state when each step of a
thread takes a free mutex, gives back its own, or leaves both views alone.

## Main definitions

* `Guarded` — the owner is the thread whose code is inside the critical section
* `Owned` — the owner may also be a thread that has ended there
* `LockStep` — what a step of one thread does to a mutex
* `LockOp` — what the code of a thread does next to a family of mutexes

## Main results

* `Guarded.step` — steps keep the two views in agreement
* `Guarded.unique` — at most one thread is inside the critical section
* `LockOp.lockStep` — code that is inside between its lock and its unlock takes such steps
-/

namespace Semantics

variable {T : Type*}

/-- The mutex is owned by exactly the thread that is inside its critical section. -/
def Guarded (owner : Option T) (holds : T → Prop) : Prop :=
  ∀ p, owner = some p ↔ holds p

/-- A step of `p` leaves the mutex alone, takes it while it is free, or gives it back. -/
inductive LockStep (p : T) (owner owner' : Option T) (held held' : Prop) : Prop
  | keep (howner : owner' = owner) (hheld : held' ↔ held)
  | acquire (hfree : owner = none) (howner : owner' = some p) (hheld : held')
  | release (hheld : held) (howner : owner' = none) (hleft : ¬ held')

variable {owner owner' : Option T} {holds holds' : T → Prop} {p q : T}

theorem Guarded.not_holds (h : Guarded owner holds) (hfree : owner = none) (p : T) :
    ¬ holds p := by
  intro hp
  rw [← h p, hfree] at hp
  cases hp

theorem Guarded.unique (h : Guarded owner holds) (hp : holds p) (hq : holds q) : p = q := by
  have hp' := (h p).mpr hp
  have hq' := (h q).mpr hq
  exact Option.some.inj (hp'.symm.trans hq')

theorem Guarded.step (h : Guarded owner holds)
    (hstep : LockStep p owner owner' (holds p) (holds' p))
    (hframe : ∀ q, q ≠ p → (holds' q ↔ holds q)) : Guarded owner' holds' := by
  intro q
  by_cases hq : q = p
  · subst hq
    cases hstep with
    | keep howner hheld => rw [howner, h q, hheld]
    | acquire _ howner hheld => simp [howner, hheld]
    | release _ howner hleft => simp [howner, hleft]
  · rw [hframe q hq]
    cases hstep with
    | keep howner _ => rw [howner, h q]
    | acquire hfree howner _ =>
      have hpq : p ≠ q := Ne.symm hq
      simp [howner, hpq, h.not_holds hfree q]
    | release hheld howner _ =>
      have hother : ¬ holds q := fun hholds => hq (h.unique hholds hheld)
      simp [howner, hother]

/-! ### Owners that are gone -/

/-- A thread that is inside its critical section owns the mutex. An owner that has ended inside
keeps it. -/
def Owned (owner : Option T) (holds : T → Prop) : Prop := ∀ p, holds p → owner = some p

theorem Owned.mono (h : Owned owner holds) (hless : ∀ p, holds' p → holds p) :
    Owned owner holds' :=
  fun p hp => h p (hless p hp)

theorem Owned.step (h : Owned owner holds)
    (hstep : LockStep p owner owner' (holds p) (holds' p))
    (hframe : ∀ q, q ≠ p → holds' q → holds q) : Owned owner' holds' := by
  intro q hq
  by_cases hqp : q = p
  · subst hqp
    cases hstep with
    | keep howner hheld => rw [howner, h q (hheld.mp hq)]
    | acquire _ howner _ => exact howner
    | release _ _ hleft => exact absurd hq hleft
  · have howned := h q (hframe q hqp hq)
    cases hstep with
    | keep howner _ => rw [howner, howned]
    | acquire hfree _ _ => simp [hfree] at howned
    | release hheld _ _ => exact absurd (Option.some.inj (howned.symm.trans (h p hheld))) hqp

/-! ### Families of mutexes -/

/-- What the next step of a thread does to the mutexes of a family. -/
inductive LockOp (M : Type*)
  | keep
  | lock (m : M)
  | unlock (m : M)

variable {M : Type*} [DecidableEq M] {op : LockOp M} {owners owners' : M → Option T} {m : M}
  {held held' : Prop}

/-- The owners behind a step of `p`, unless it is blocked. -/
def LockOp.apply (op : LockOp M) (p : T) (owners : M → Option T) : Option (M → Option T) :=
  match op with
  | .keep => some owners
  | .lock m => if owners m = none then some (Function.update owners m (some p)) else none
  | .unlock m => some (Function.update owners m none)

/-- The code is inside the critical section of `m` from its lock to its unlock. -/
structure LockOp.Matches (op : LockOp M) (m : M) (held held' : Prop) : Prop where
  lock : op = .lock m → held'
  unlock : op = .unlock m → held ∧ ¬ held'
  keep : op ≠ .lock m → op ≠ .unlock m → (held' ↔ held)

/-- Code that is inside between its lock and its unlock agrees with the owners. -/
theorem LockOp.lockStep (h : op.apply p owners = some owners')
    (hmatches : op.Matches m held held') :
    LockStep p (owners m) (owners' m) held held' := by
  cases op with
  | keep =>
    obtain rfl := Option.some.inj h
    exact .keep rfl (hmatches.keep nofun nofun)
  | lock m' =>
    obtain ⟨hfree, heq⟩ := Option.ite_none_right_eq_some.mp h
    obtain rfl := Option.some.inj heq
    by_cases hm : m' = m
    · subst hm
      exact .acquire hfree (Function.update_self ..) (hmatches.lock rfl)
    · refine .keep (Function.update_of_ne (Ne.symm hm) ..) (hmatches.keep ?_ nofun)
      exact fun heq => hm (LockOp.lock.inj heq)
  | unlock m' =>
    obtain rfl := Option.some.inj h
    by_cases hm : m' = m
    · subst hm
      obtain ⟨hheld, hleft⟩ := hmatches.unlock rfl
      exact .release hheld (Function.update_self ..) hleft
    · refine .keep (Function.update_of_ne (Ne.symm hm) ..) (hmatches.keep nofun ?_)
      exact fun heq => hm (LockOp.unlock.inj heq)

end Semantics
