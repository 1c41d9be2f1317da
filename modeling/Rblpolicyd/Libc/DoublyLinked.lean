import Mathlib.Data.List.Nodup
import Rblpolicyd.Libc.Heap

/-!
# Chains in two halves, and links back

A change in the middle of a chain leaves the nodes before it and those behind it
alone. A segment is the part of a chain up to some pointer, so that a chain is a
segment with a chain behind it; each write to a node is read off from the two halves.
In a doubly linked list every value also names the node before it.

## Main definitions

* `Heap.IsSeg` — a chain of nodes from a pointer to another
* `Heap.firstAddr`, `Heap.lastAddr` — the ends of a chain
* `Heap.LinkedBack` — every value names the node before it

## Main results

* `Heap.isList_append_iff`, `Heap.linkedBack_append` — both halves and the seam
* `Heap.IsList.write_val`, `Heap.IsList.unlink` — a value is changed, a node is taken out
-/

namespace Libc

namespace Heap

variable {α : Type*} {h h' : Heap (Node α)} {p q : Option Nat} {a b : Nat} {v v' w : α}
  {next : Option Nat} {cells pre post : List (Nat × α)}

/-- The chain of nodes from `p` to the pointer `q` has the given addresses and values. -/
def IsSeg (h : Heap (Node α)) : Option Nat → List (Nat × α) → Option Nat → Prop
  | p, [], q => p = q
  | p, (a, v) :: rest, q => p = some a ∧ ∃ next, h.read a = some ⟨v, next⟩ ∧ IsSeg h next rest q

theorem isList_append_iff :
    h.IsList p (pre ++ post) ↔ ∃ q, h.IsSeg p pre q ∧ h.IsList q post := by
  induction pre generalizing p with
  | nil =>
    constructor
    · exact fun hl => ⟨p, rfl, hl⟩
    · rintro ⟨q, rfl, hl⟩
      exact hl
  | cons c pre ih =>
    constructor
    · rintro ⟨hp, next, hr, hrest⟩
      obtain ⟨q, hseg, hl⟩ := ih.mp hrest
      exact ⟨q, ⟨hp, next, hr, hseg⟩, hl⟩
    · rintro ⟨q, ⟨hp, next, hr, hseg⟩, hl⟩
      exact ⟨hp, next, hr, ih.mpr ⟨q, hseg, hl⟩⟩

/-- A segment only reads its own cells. -/
theorem IsSeg.congr (hagree : ∀ c ∈ cells, h'.read c.1 = h.read c.1) (hs : h.IsSeg p cells q) :
    h'.IsSeg p cells q := by
  induction cells generalizing p with
  | nil => exact hs
  | cons c rest ih =>
    obtain ⟨hp, next, hr, hrest⟩ := hs
    have hhead : h'.read c.1 = h.read c.1 := hagree c (List.mem_cons_self ..)
    exact ⟨hp, next, hhead.trans hr, ih (fun d hd => hagree d (List.mem_cons_of_mem _ hd)) hrest⟩

/-- The address of the first node. -/
def firstAddr (cells : List (Nat × α)) : Option Nat := cells.head?.map Prod.fst

theorem IsList.eq_firstAddr (hl : h.IsList p cells) : p = firstAddr cells := by
  cases cells with
  | nil => exact hl
  | cons c rest => exact hl.1

theorem mem_of_firstAddr (ha : firstAddr cells = some a) : a ∈ cells.map Prod.fst := by
  cases cells with
  | nil => cases ha
  | cons c rest =>
    obtain rfl := Option.some.inj ha
    exact List.mem_cons_self ..

/-- What a node of a chain points to is the first node of the rest. -/
theorem IsList.next_eq (hl : h.IsList p (pre ++ (a, v) :: post)) :
    h.read a = some ⟨v, firstAddr post⟩ := by
  obtain ⟨q, -, -, next, hr, hrest⟩ := isList_append_iff.mp hl
  rwa [hrest.eq_firstAddr] at hr

theorem not_mem_of_nodup (hnodup : ((pre ++ (a, v) :: post).map Prod.fst).Nodup) :
    a ∉ pre.map Prod.fst ∧ a ∉ post.map Prod.fst := by
  rw [List.map_append, List.map_cons, List.nodup_middle, List.nodup_cons, List.mem_append,
    not_or] at hnodup
  exact hnodup.1

theorem read_write_of_not_mem {node : Node α} (ha : a ∉ cells.map Prod.fst) :
    ∀ c ∈ cells, (h.write a node).read c.1 = h.read c.1 := by
  intro c hc
  apply read_write_ne
  rintro rfl
  exact ha (List.mem_map_of_mem hc)

/-- A value of a chain is replaced. -/
theorem IsList.write_val (hl : h.IsList p (pre ++ (a, v) :: post)) (v' : α) :
    (h.write a ⟨v', firstAddr post⟩).IsList p (pre ++ (a, v') :: post) := by
  obtain ⟨hpre, hpost⟩ := not_mem_of_nodup hl.nodup
  have hr := hl.next_eq
  obtain ⟨q, hseg, rfl, next, hr', hrest⟩ := isList_append_iff.mp hl
  rw [hr, Option.some.injEq, Node.mk.injEq] at hr'
  obtain ⟨-, rfl⟩ := hr'
  apply isList_append_iff.mpr
  exact ⟨some a, hseg.congr (read_write_of_not_mem hpre), rfl, firstAddr post,
    read_write_self hr, hrest.congr (read_write_of_not_mem hpost)⟩

/-- The node behind `a` is taken out of the chain. -/
theorem IsList.unlink (hl : h.IsList p (pre ++ (a, v) :: (b, w) :: post)) :
    (h.write a ⟨v, firstAddr post⟩).IsList p (pre ++ (a, v) :: post) := by
  obtain ⟨hpre, hpost⟩ := not_mem_of_nodup hl.nodup
  have hr := hl.next_eq
  obtain ⟨q, hseg, rfl, next, -, -, next', hb, hrest⟩ := isList_append_iff.mp hl
  have hpost' : a ∉ post.map Prod.fst := fun hmem => hpost (List.mem_cons_of_mem _ hmem)
  apply isList_append_iff.mpr
  refine ⟨some a, hseg.congr (read_write_of_not_mem hpre), rfl, firstAddr post,
    read_write_self hr, ?_⟩
  rw [← hrest.eq_firstAddr]
  exact hrest.congr (read_write_of_not_mem hpost')

/-! ### Links back -/

/-- The address of the last node, or `prev` in front of a chain without nodes. -/
def lastAddr (prev : Option Nat) : List (Nat × α) → Option Nat
  | [] => prev
  | (a, _) :: rest => lastAddr (some a) rest

variable {last : α → Option Nat} {prev : Option Nat}

/-- Every value names the node before it, the first one `prev`. -/
def LinkedBack (last : α → Option Nat) : Option Nat → List (Nat × α) → Prop
  | _, [] => True
  | prev, (a, v) :: rest => last v = prev ∧ LinkedBack last (some a) rest

theorem linkedBack_append : LinkedBack last prev (pre ++ post) ↔
    LinkedBack last prev pre ∧ LinkedBack last (lastAddr prev pre) post := by
  induction pre generalizing prev with
  | nil => exact (and_iff_right trivial).symm
  | cons c pre ih =>
    change (_ ∧ LinkedBack last _ (pre ++ post)) ↔ _
    rw [ih, ← and_assoc]
    rfl

theorem lastAddr_append (c : Nat × α) : lastAddr prev (pre ++ [c]) = some c.1 := by
  induction pre generalizing prev with
  | nil => rfl
  | cons d pre ih => exact ih

/-- What a value names is a node of the chain, or the pointer in front of it. -/
theorem lastAddr_cases (prev : Option Nat) (cells : List (Nat × α)) :
    cells = [] ∧ lastAddr prev cells = prev ∨
      ∃ pre c, cells = pre ++ [c] ∧ lastAddr prev cells = some c.1 := by
  rcases List.eq_nil_or_concat cells with rfl | ⟨pre, c, rfl⟩
  · exact .inl ⟨rfl, rfl⟩
  · rw [List.concat_eq_append]
    exact .inr ⟨pre, c, rfl, lastAddr_append c⟩

theorem mem_of_lastAddr (ha : lastAddr none cells = some a) : a ∈ cells.map Prod.fst := by
  rcases lastAddr_cases none cells with ⟨-, hnone⟩ | ⟨pre, c, rfl, hsome⟩
  · rw [hnone] at ha
    cases ha
  · obtain rfl := Option.some.inj (hsome.symm.trans ha)
    simp

end Heap

end Libc
