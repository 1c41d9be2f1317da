import Mathlib.Data.List.DropRight
import Mathlib.Data.List.Rotate

/-!
# Ring buffers that keep the latest samples

A ring buffer is an array of fixed size with the position of the next write and
the number of slots in use. A push overwrites the slot at the position, whichever
sample is there. While the buffer fills, position and count go together; from
then on the slots are a rotation of the latest samples, oldest first from the
position on.

## Main definitions

* `RingBuffer`, `RingBuffer.push` — the slots, and the write of one sample
* `RingBuffer.Aligned` — while there are free slots, the first of them is next
* `RingBuffer.window` — the slots in use, rotated to the order of the writes

## Main results

* `RingBuffer.window_push`, `RingBuffer.window_foldl_push` — the window holds the
  latest samples in the order in which they came
* `RingBuffer.count_foldl_push`, `RingBuffer.index_foldl_push` — count and position
-/

namespace Data

/-- The elements at the end of what is appended to are not affected by its beginning. -/
theorem rtake_rtake_append {α : Type*} (n : ℕ) (xs ys : List α) :
    (xs.rtake n ++ ys).rtake n = (xs ++ ys).rtake n := by
  rw [List.rtake_eq_reverse_take_reverse, List.rtake_eq_reverse_take_reverse,
    List.rtake_eq_reverse_take_reverse]
  congr 1
  rw [List.reverse_append, List.reverse_append, List.reverse_reverse, List.take_append,
    List.take_append, List.take_take, min_eq_left (Nat.sub_le _ _)]

/-- An array of `cap` slots with the position of the next write. -/
structure RingBuffer (α : Type*) (cap : ℕ) where
  count : ℕ
  index : ℕ
  val : List α
  count_le : count ≤ cap
  index_lt : index < cap
  length_val : val.length = cap

namespace RingBuffer

variable {α : Type*} {cap : ℕ}

/-- Write a sample at the position. -/
def push (r : RingBuffer α cap) (x : α) : RingBuffer α cap where
  count := if r.count < cap then r.count + 1 else r.count
  index := (r.index + 1) % cap
  val := r.val.set r.index x
  count_le := by
    have hle := r.count_le
    split_ifs <;> omega
  index_lt := Nat.mod_lt _ (Nat.zero_lt_of_lt r.index_lt)
  length_val := by rw [List.length_set, r.length_val]

/-- All slots hold `x` and none is in use. -/
def blank (x : α) (hcap : 0 < cap) : RingBuffer α cap where
  count := 0
  index := 0
  val := List.replicate cap x
  count_le := Nat.zero_le _
  index_lt := hcap
  length_val := List.length_replicate

/-- The slots in use. -/
def slots (r : RingBuffer α cap) : List α := r.val.take r.count

/-- The slots in use, from the position on. -/
def window (r : RingBuffer α cap) : List α := r.slots.rotate r.index

/-- While there are free slots, the next write is to the first of them. -/
def Aligned (r : RingBuffer α cap) : Prop := r.count < cap → r.index = r.count

variable {r : RingBuffer α cap}

theorem length_slots (r : RingBuffer α cap) : r.slots.length = r.count := by
  rw [slots, List.length_take, r.length_val, min_eq_left r.count_le]

theorem length_window (r : RingBuffer α cap) : r.window.length = r.count := by
  rw [window, List.length_rotate, length_slots]

theorem blank_aligned (x : α) (hcap : 0 < cap) : (blank x hcap).Aligned := fun _ => rfl

theorem Aligned.aligned_push (h : r.Aligned) (x : α) : (r.push x).Aligned := by
  intro hfree
  have hcount : r.count < cap := by
    by_contra hfull
    simp only [push, if_neg hfull] at hfree
    exact hfull hfree
  have hnext : r.count + 1 < cap := by
    simpa only [push, if_pos hcount] using hfree
  simp only [push, if_pos hcount, h hcount]
  exact Nat.mod_eq_of_lt hnext

/-- A full rotation, or none, leaves the slots of a buffer that fills in their order. -/
theorem Aligned.window_of_lt (h : r.Aligned) (hlt : r.count < cap) : r.window = r.slots := by
  rw [window, h hlt, ← length_slots, List.rotate_length]

/-- A push behind the last slot in use. -/
theorem Aligned.window_push_of_lt (h : r.Aligned) (hlt : r.count < cap) (x : α) :
    (r.push x).window = r.window ++ [x] := by
  have hslots : (r.push x).slots = r.slots ++ [x] := by
    simp only [slots, push, if_pos hlt, h hlt]
    rw [List.take_add_one, List.take_set_of_le (le_refl _), List.getElem?_set_self]
    · rfl
    · rw [r.length_val]
      exact hlt
  rw [h.window_of_lt hlt, window, hslots]
  rcases Nat.lt_or_ge (r.count + 1) cap with hmore | hfull
  · have hindex : (r.push x).index = (r.slots ++ [x]).length := by
      rw [List.length_append, length_slots]
      simp only [push, h hlt]
      exact Nat.mod_eq_of_lt hmore
    rw [hindex, List.rotate_length]
  · have hindex : (r.push x).index = 0 := by
      have hcap : r.count + 1 = cap := by omega
      simp only [push, h hlt, hcap, Nat.mod_self]
    rw [hindex, List.rotate_zero]

/-- A push over the oldest sample. -/
theorem window_push_of_full (hfull : r.count = cap) (x : α) :
    (r.push x).window = r.window.tail ++ [x] := by
  have hindex := r.index_lt
  have hlength := r.length_val
  have hslots : r.slots = r.val := List.take_of_length_le (by omega)
  have hslots' : (r.push x).slots = r.val.set r.index x := by
    refine List.take_of_length_le ?_
    simp only [push, List.length_set]
    split_ifs <;> omega
  have hrotate : (r.push x).window = (r.val.set r.index x).rotate (r.index + 1) := by
    rw [window, hslots', ← List.rotate_mod _ (r.index + 1), List.length_set, hlength]
    rfl
  have hnew : (r.val.set r.index x).rotate (r.index + 1) =
      r.val.drop (r.index + 1) ++ (r.val.take r.index ++ [x]) := by
    rw [List.rotate_eq_drop_append_take (by rw [List.length_set]; omega),
      List.drop_set_of_lt (by omega), List.take_add_one, List.take_set_of_le (le_refl _),
      List.getElem?_set_self (by omega)]
    rfl
  have hold : r.val.rotate r.index =
      r.val[r.index] :: r.val.drop (r.index + 1) ++ r.val.take r.index := by
    rw [List.rotate_eq_drop_append_take (by omega), List.drop_eq_getElem_cons (by omega)]
  rw [hrotate, window, hslots, hnew, hold, List.cons_append, List.tail_cons, List.append_assoc]

/-- The window holds the latest samples, in their order. -/
theorem Aligned.window_push (h : r.Aligned) (x : α) :
    (r.push x).window = (r.window ++ [x]).rtake cap := by
  rcases Nat.lt_or_ge r.count cap with hlt | hge
  · rw [h.window_push_of_lt hlt, List.rtake, Nat.sub_eq_zero_of_le, List.drop_zero]
    rw [List.length_append, length_window]
    exact hlt
  · have hfull : r.count = cap := le_antisymm r.count_le hge
    have hpos : r.window ≠ [] := by
      have hcap := r.index_lt
      rw [← List.length_pos_iff, length_window]
      omega
    rw [window_push_of_full hfull, List.rtake, List.length_append, length_window, hfull,
      List.length_singleton, Nat.add_sub_cancel_left, List.drop_one,
      List.tail_append_of_ne_nil hpos]

theorem Aligned.window_foldl_push (h : r.Aligned) (xs : List α) :
    (xs.foldl push r).window = (r.window ++ xs).rtake cap := by
  induction xs generalizing r with
  | nil =>
    rw [List.foldl_nil, List.append_nil, List.rtake, length_window,
      Nat.sub_eq_zero_of_le r.count_le, List.drop_zero]
  | cons x xs ih =>
    rw [List.foldl_cons, ih (h.aligned_push x), h.window_push, rtake_rtake_append,
      List.append_assoc, List.singleton_append]

theorem count_foldl_push (xs : List α) :
    (xs.foldl push r).count = min (r.count + xs.length) cap := by
  induction xs generalizing r with
  | nil => exact (min_eq_left r.count_le).symm
  | cons x xs ih =>
    have hle := r.count_le
    rw [List.foldl_cons, ih, List.length_cons]
    simp only [push]
    split_ifs <;> omega

theorem index_foldl_push (xs : List α) :
    (xs.foldl push r).index = (r.index + xs.length) % cap := by
  induction xs generalizing r with
  | nil => exact (Nat.mod_eq_of_lt r.index_lt).symm
  | cons x xs ih =>
    rw [List.foldl_cons, ih, List.length_cons]
    simp only [push]
    rw [Nat.mod_add_mod, Nat.add_assoc, Nat.add_comm 1]

end RingBuffer

end Data
