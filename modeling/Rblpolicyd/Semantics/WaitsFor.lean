import Mathlib.Order.Basic

/-!
# Threads that wait for resources

A thread that waits for a resource waits for the threads that hold it: the owner of a
mutex, or those that are still going to signal a condition. With the resources ranked
so that whoever holds one only waits for resources above it, no chain of waiting
threads closes, and someone at its end does not wait.

## Main definitions

* `RankOrdered` — a thread waits only for resources above those it holds

## Main results

* `exists_not_waiting` — with ordered ranks some live thread does not wait
-/

namespace Semantics

variable {T R : Type*} {live : T → Prop} {waits holds : T → R → Prop} {rank : R → Nat}

/-- A live thread waits only for resources that rank above those it holds. -/
def RankOrdered (live : T → Prop) (waits holds : T → R → Prop) (rank : R → Nat) : Prop :=
  ∀ p r r', live p → holds p r → waits p r' → rank r < rank r'

/-- Where every resource that is waited for is held by a live thread, and the ranks are ordered
and bounded, some live thread does not wait. -/
theorem exists_not_waiting {bound : Nat} (hbound : ∀ r, rank r ≤ bound)
    (hheld : ∀ p r, live p → waits p r → ∃ q, live q ∧ holds q r)
    (hordered : RankOrdered live waits holds rank) {p : T} (hp : live p) :
    ∃ q, live q ∧ ∀ r, ¬ waits q r := by
  -- follow the holders upwards; `n` ranks are left above the one that is waited for
  have hclimb : ∀ n p r, live p → waits p r → bound - rank r = n →
      ∃ q, live q ∧ ∀ r, ¬ waits q r := by
    intro n
    induction n using Nat.strongRecOn with
    | ind n ih =>
      intro p r hp hwaits hn
      obtain ⟨q, hq, hholds⟩ := hheld p r hp hwaits
      by_cases hfree : ∀ r, ¬ waits q r
      · exact ⟨q, hq, hfree⟩
      · obtain ⟨r', hwaits'⟩ := not_forall_not.mp hfree
        have hlt := hordered q r r' hq hholds hwaits'
        have hle := hbound r'
        exact ih (bound - rank r') (by omega) q r' hq hwaits' rfl
  by_cases hfree : ∀ r, ¬ waits p r
  · exact ⟨p, hp, hfree⟩
  · obtain ⟨r, hwaits⟩ := not_forall_not.mp hfree
    exact hclimb _ p r hp hwaits rfl

end Semantics
