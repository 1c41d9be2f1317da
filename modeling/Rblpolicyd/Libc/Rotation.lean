import Mathlib.Data.List.Basic
import Mathlib.Data.List.Induction

/-!
# Exchanging two adjacent blocks of an array in place

The block swap rotation: as long as both blocks are nonempty, the shorter one is
swapped element by element with the far end of the longer one, which puts it where
it belongs and leaves two shorter blocks to exchange. The elements outside the two
blocks stay where they are, and each block keeps its order.

## Main definitions

* `swapAt` — two elements of an array change places
* `swapBlocks` — the loop that swaps two stretches of the same length
* `rotateBlocks` — the rotation of `[bottom, middle)` and `[middle, top)`

## Main results

* `swapBlocks_append` — two stretches change places
* `rotateBlocks_append` — the two blocks change places
-/

namespace Libc

variable {α : Type*}

/-- The elements at two positions change places. -/
def swapAt (array : List α) (i j : Nat) : List α :=
  match array[i]?, array[j]? with
  | some a, some b => (array.set i b).set j a
  | _, _ => array

/-- The positions `i + k` and `j + k` change places for `k` from 0 to `len`. -/
def swapBlocks (array : List α) (i j : Nat) : Nat → List α
  | 0 => array
  | len + 1 => swapAt (swapBlocks array i j len) (i + len) (j + len)

/-- Exchange `[bottom, middle)` and `[middle, top)`: the shorter block is swapped with
the far end of the longer one until one of them is empty. -/
def rotateBlocks : Nat → List α → Nat → Nat → Nat → List α
  | 0, array, _, _, _ => array
  | fuel + 1, array, bottom, middle, top =>
    if middle < top ∧ bottom < middle then
      if middle - bottom < top - middle then
        let len := middle - bottom
        rotateBlocks fuel (swapBlocks array bottom (top - len) len) bottom middle (top - len)
      else
        let len := top - middle
        rotateBlocks fuel (swapBlocks array bottom middle len) (bottom + len) middle top
    else array

variable {before left between right behind : List α} {a b : α} {i j len bottom middle top : Nat}

/-- The element between two parts of an array is found behind the first one. -/
theorem getElem?_append_cons (hi : i = before.length) :
    (before ++ a :: behind)[i]? = some a := by
  rw [hi, List.getElem?_append_right (Nat.le_refl _), Nat.sub_self, List.getElem?_cons_zero]

/-- It is written there as well. -/
theorem set_append_cons (hi : i = before.length) :
    (before ++ a :: behind).set i b = before ++ b :: behind := by
  rw [hi, List.set_append_right _ _ (Nat.le_refl _), Nat.sub_self, List.set_cons_zero]

theorem swapAt_append (hi : i = before.length) (hj : j = before.length + 1 + between.length) :
    swapAt (before ++ a :: (between ++ b :: behind)) i j =
      before ++ b :: (between ++ a :: behind) := by
  have hsplit : ∀ x y : α, before ++ x :: (between ++ y :: behind) =
      (before ++ x :: between) ++ y :: behind := by simp
  have hfirst : (before ++ a :: (between ++ b :: behind))[i]? = some a := getElem?_append_cons hi
  have hj' : ∀ x : α, j = (before ++ x :: between).length := by
    intro x
    simp only [List.length_append, List.length_cons, hj]
    omega
  have hsecond : (before ++ a :: (between ++ b :: behind))[j]? = some b := by
    rw [hsplit, getElem?_append_cons (hj' a)]
  rw [swapAt, hfirst, hsecond]
  simp only
  rw [set_append_cons hi, hsplit, set_append_cons (hj' b), ← hsplit]

/-- Two stretches of the same length change places, what lies around them stays. -/
theorem swapBlocks_append (hlen : left.length = right.length) (hi : i = before.length)
    (hj : j = before.length + left.length + between.length) :
    swapBlocks (before ++ left ++ between ++ right ++ behind) i j left.length =
      before ++ right ++ between ++ left ++ behind := by
  -- the last iteration swaps the last elements, which close their stretches
  induction left using List.reverseRecOn generalizing right between behind with
  | nil =>
    have hnil : right = [] := List.eq_nil_of_length_eq_zero hlen.symm
    simp [swapBlocks, hnil]
  | append_singleton left a ih =>
    rcases List.eq_nil_or_concat' right with rfl | ⟨right, b, rfl⟩
    · simp at hlen
    · simp only [List.length_append, List.length_singleton, Nat.add_right_cancel_iff] at hlen hj
      have hshift : before ++ (left ++ [a]) ++ between ++ (right ++ [b]) ++ behind =
          before ++ left ++ (a :: between) ++ right ++ (b :: behind) := by simp
      rw [List.length_append, List.length_singleton, swapBlocks, hshift,
        ih hlen (by rw [List.length_cons]; omega)]
      have hshape : before ++ right ++ a :: between ++ left ++ b :: behind =
          (before ++ right) ++ a :: ((between ++ left) ++ b :: behind) := by simp
      rw [hshape, swapAt_append (by simp; omega) (by simp; omega)]
      simp

/-- Two adjacent blocks change places, each in its own order, and nothing else moves. -/
theorem rotateBlocks_append {fuel : Nat} (hfuel : left.length + right.length ≤ fuel)
    (hbottom : bottom = before.length) (hmiddle : middle = bottom + left.length)
    (htop : top = middle + right.length) :
    rotateBlocks fuel (before ++ left ++ right ++ behind) bottom middle top =
      before ++ right ++ left ++ behind := by
  induction fuel generalizing before left right behind bottom middle top with
  | zero =>
    have hl : left = [] := List.eq_nil_of_length_eq_zero (by omega)
    have hr : right = [] := List.eq_nil_of_length_eq_zero (by omega)
    simp [rotateBlocks, hl, hr]
  | succ fuel ih =>
    rw [rotateBlocks]
    by_cases hboth : middle < top ∧ bottom < middle
    · rw [if_pos hboth]
      by_cases hshort : middle - bottom < top - middle
      · -- the left block is the short one: it goes to the end of the right one
        rw [if_pos hshort]
        obtain ⟨near, far, rfl, hfar⟩ :
            ∃ near far, right = near ++ far ∧ far.length = left.length :=
          ⟨right.take (right.length - left.length), right.drop (right.length - left.length),
            (List.take_append_drop _ _).symm, by rw [List.length_drop]; omega⟩
        rw [List.length_append] at htop hfuel
        have hswap : swapBlocks (before ++ left ++ (near ++ far) ++ behind) bottom
            (top - (middle - bottom)) (middle - bottom) =
            before ++ far ++ near ++ (left ++ behind) := by
          have h : swapBlocks (before ++ left ++ near ++ far ++ behind) bottom
              (top - (middle - bottom)) left.length = before ++ far ++ near ++ left ++ behind :=
            swapBlocks_append hfar.symm hbottom (by omega)
          rw [show middle - bottom = left.length by omega] at h ⊢
          simpa using h
        simp only [hswap]
        rw [ih (by omega) hbottom (by omega) (by omega)]
        simp
      · -- the right block is the short one: it goes to the start of the left one
        rw [if_neg hshort]
        obtain ⟨near, far, rfl, hnear⟩ :
            ∃ near far, left = near ++ far ∧ near.length = right.length :=
          ⟨left.take right.length, left.drop right.length,
            (List.take_append_drop _ _).symm, by rw [List.length_take]; omega⟩
        rw [List.length_append] at hmiddle hfuel
        have hswap : swapBlocks (before ++ (near ++ far) ++ right ++ behind) bottom middle
            (top - middle) = (before ++ right) ++ far ++ near ++ behind := by
          have h : swapBlocks (before ++ near ++ far ++ right ++ behind) bottom middle
              near.length = before ++ right ++ far ++ near ++ behind :=
            swapBlocks_append hnear hbottom (by omega)
          rw [show top - middle = near.length by omega]
          simpa using h
        simp only [hswap]
        rw [ih (by omega) (by rw [List.length_append]; omega) (by omega) (by omega)]
        simp
    · rw [if_neg hboth]
      rcases Nat.eq_zero_or_pos left.length with hl | hl
      · simp [List.eq_nil_of_length_eq_zero hl]
      · have hr : right = [] := List.eq_nil_of_length_eq_zero (by omega)
        simp [hr]

end Libc
