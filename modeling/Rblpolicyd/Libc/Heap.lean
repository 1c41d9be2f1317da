import Mathlib.Data.List.Perm.Subperm

/-!
# A heap of cells and null-terminated lists in it

An address is the position of a cell, a freed cell is `none`, and allocation takes
the next position, so that an address never comes back. A singly linked list is a
chain of `Node`s that ends in a null pointer; the ghost list of its cells names
every address with the value stored there.

## Main definitions

* `Heap`, `Heap.read`, `Heap.alloc`, `Heap.write`, `Heap.free` — cells and their use
* `Heap.Extends` — the cells of one heap are kept in another
* `Heap.IsList` — a chain of nodes from a pointer to null
* `Heap.freeList` — the loop that frees a chain
* `Heap.live` — how many cells are in use

## Main results

* `IsList.unique`, `IsList.nodup` — a chain is determined by its head and has no cycle
* `IsList.append` — linking a fresh node behind the last one
* `read_freeList` — freeing a chain frees its cells and nothing else
* `Extends.freeList` — freeing a chain of new cells keeps the old ones
* `live_freeList` — freeing a chain frees as many cells as it has
-/

namespace Libc

/-- Memory cells by address; a freed cell is `none`. -/
structure Heap (α : Type*) where
  cells : List (Option α)
  deriving DecidableEq

/-- A list node: what it carries and its `next` pointer. -/
structure Node (α : Type*) where
  val : α
  next : Option Nat
  deriving DecidableEq

namespace Heap

variable {α : Type*} {h h' : Heap α} {a b : Nat} {v w : α}

/-- The heap before any allocation. -/
def empty : Heap α := ⟨[]⟩

/-- The live cell at an address. -/
def read (h : Heap α) (a : Nat) : Option α := (h.cells[a]?).join

/-- Allocate a cell. -/
def alloc (h : Heap α) (v : α) : Nat × Heap α := (h.cells.length, ⟨h.cells ++ [some v]⟩)

/-- Store into a cell. -/
def write (h : Heap α) (a : Nat) (v : α) : Heap α := ⟨h.cells.set a (some v)⟩

/-- Free a cell. -/
def free (h : Heap α) (a : Nat) : Heap α := ⟨h.cells.set a none⟩

theorem lt_length_of_read (hr : h.read a = some v) : a < h.cells.length := by
  by_contra hle
  simp [read, List.getElem?_eq_none (Nat.le_of_not_lt hle)] at hr

@[simp] theorem read_alloc_self : (h.alloc v).2.read (h.alloc v).1 = some v := by
  simp [alloc, read]

theorem read_alloc_ne (hne : b ≠ h.cells.length) : (h.alloc v).2.read b = h.read b := by
  rcases Nat.lt_or_gt_of_ne hne with hlt | hgt
  · rw [read, alloc, List.getElem?_append_left hlt, read]
  · have hge : (h.cells ++ [some v]).length ≤ b := by
      rw [List.length_append, List.length_singleton]
      exact hgt
    rw [read, alloc, read, List.getElem?_eq_none hge, List.getElem?_eq_none (Nat.le_of_lt hgt)]

theorem read_write_self (hr : h.read a = some w) : (h.write a v).read a = some v := by
  simp [write, read, lt_length_of_read hr]

@[simp] theorem read_write_ne (hne : b ≠ a) : (h.write a v).read b = h.read b := by
  simp [write, read, hne.symm]

@[simp] theorem read_free_self : (h.free a).read a = none := by
  by_cases hlt : a < h.cells.length
  · simp [free, read, hlt]
  · simp [free, read, hlt]

@[simp] theorem read_free_ne (hne : b ≠ a) : (h.free a).read b = h.read b := by
  simp [free, read, hne.symm]

/-- Every cell of `h`, freed ones included, is the same in `h'`, which may have more. -/
structure Extends (h h' : Heap α) : Prop where
  length_le : h.cells.length ≤ h'.cells.length
  read_eq : ∀ a < h.cells.length, h'.read a = h.read a

theorem Extends.refl (h : Heap α) : h.Extends h := ⟨Nat.le_refl _, fun _ _ => rfl⟩

theorem Extends.alloc (hext : h.Extends h') (v : α) : h.Extends (h'.alloc v).2 where
  length_le := by
    rw [Heap.alloc, List.length_append]
    exact Nat.le_add_right_of_le hext.length_le
  read_eq a ha := by
    have hlt : a < h'.cells.length := Nat.lt_of_lt_of_le ha hext.length_le
    rw [← hext.read_eq a ha, read, Heap.alloc, List.getElem?_append_left hlt, read]

/-- Only the cells of `h` are kept. -/
theorem Extends.write (hext : h.Extends h') (hnew : h.cells.length ≤ b) (v : α) :
    h.Extends (h'.write b v) where
  length_le := by
    rw [Heap.write, List.length_set]
    exact hext.length_le
  read_eq a ha := by
    have hne : a ≠ b := Nat.ne_of_lt (Nat.lt_of_lt_of_le ha hnew)
    rw [read_write_ne hne, hext.read_eq a ha]

/-! ### Counting the cells in use -/

/-- How many cells are allocated and not freed. -/
def live (h : Heap α) : Nat := h.cells.countP Option.isSome

@[simp] theorem live_alloc (v : α) : (h.alloc v).2.live = h.live + 1 := by
  simp [live, Heap.alloc]

theorem countP_set_of_read (hr : h.read a = some w) (x : Option α) :
    (h.cells.set a x).countP Option.isSome + 1 = h.live + if x.isSome then 1 else 0 := by
  have hlt := lt_length_of_read hr
  have hsome : h.cells[a] = some w := by simpa [read, hlt] using hr
  have hpos : 0 < h.live := List.countP_pos_iff.mpr ⟨_, List.getElem_mem hlt, by simp [hsome]⟩
  unfold live at hpos ⊢
  rw [List.countP_set hlt, hsome]
  simp only [Option.isSome_some, if_true]
  omega

theorem live_write (hr : h.read a = some w) : (h.write a v).live = h.live := by
  have hset := countP_set_of_read hr (some v)
  exact Nat.succ.inj hset

theorem live_free (hr : h.read a = some w) : (h.free a).live + 1 = h.live :=
  countP_set_of_read hr none

end Heap

namespace Heap

variable {α : Type*} {h h' : Heap (Node α)} {a : Nat} {p : Option Nat}
  {cells cells' : List (Nat × α)}

/-- The chain of nodes from `p` to null has the given addresses and values. -/
def IsList (h : Heap (Node α)) : Option Nat → List (Nat × α) → Prop
  | p, [] => p = none
  | p, (a, v) :: rest => p = some a ∧ ∃ next, h.read a = some ⟨v, next⟩ ∧ IsList h next rest

/-- Set the `next` pointer of a node. -/
def setNext (h : Heap (Node α)) (a : Nat) (next : Option Nat) : Heap (Node α) :=
  match h.read a with
  | none => h
  | some node => h.write a { node with next := next }

/-- Free every node of a chain, reading each `next` before its node goes. -/
def freeList : Nat → Heap (Node α) → Option Nat → Heap (Node α)
  | 0, h, _ => h
  | _ + 1, h, none => h
  | fuel + 1, h, some a =>
    match h.read a with
    | none => h
    | some node => freeList fuel (h.free a) node.next

theorem setNext_of_read {a : Nat} {v : α} {next next' : Option Nat}
    (hr : h.read a = some ⟨v, next⟩) : h.setNext a next' = h.write a ⟨v, next'⟩ := by
  simp only [setNext, hr]

/-- The null pointer is the empty chain only. -/
theorem IsList.eq_nil (hlist : h.IsList none cells) : cells = [] := by
  cases cells with
  | nil => rfl
  | cons c rest => exact absurd hlist.1 nofun

/-- A chain only reads its own cells. -/
theorem IsList.congr (hagree : ∀ c ∈ cells, h'.read c.1 = h.read c.1) (hl : h.IsList p cells) :
    h'.IsList p cells := by
  induction cells generalizing p with
  | nil => exact hl
  | cons c rest ih =>
    obtain ⟨hp, next, hr, hrest⟩ := hl
    have hhead : h'.read c.1 = h.read c.1 := hagree c (List.mem_cons_self ..)
    exact ⟨hp, next, hhead.trans hr, ih (fun d hd => hagree d (List.mem_cons_of_mem _ hd)) hrest⟩

theorem IsList.read_isSome (hl : h.IsList p cells) {c : Nat × α} (hc : c ∈ cells) :
    ∃ next, h.read c.1 = some ⟨c.2, next⟩ := by
  induction cells generalizing p with
  | nil => exact absurd hc (List.not_mem_nil)
  | cons d rest ih =>
    obtain ⟨-, next, hr, hrest⟩ := hl
    rcases List.mem_cons.mp hc with rfl | hc
    · exact ⟨next, hr⟩
    · exact ih hrest hc

/-- A chain is determined by its head. -/
theorem IsList.unique (hl : h.IsList p cells) (hl' : h.IsList p cells') : cells = cells' := by
  induction cells generalizing p cells' with
  | nil =>
    cases cells' with
    | nil => rfl
    | cons d rest' =>
      obtain ⟨hp, -⟩ := hl'
      exact absurd (hl.symm.trans hp) (by simp)
  | cons c rest ih =>
    obtain ⟨hp, next, hr, hrest⟩ := hl
    cases cells' with
    | nil => exact absurd (hp.symm.trans hl') (by simp)
    | cons d rest' =>
      obtain ⟨hp', next', hr', hrest'⟩ := hl'
      have haddr : c.1 = d.1 := Option.some.inj (hp.symm.trans hp')
      rw [haddr, hr', Option.some.injEq, Node.mk.injEq] at hr
      obtain ⟨hval, rfl⟩ := hr
      rw [ih hrest hrest', Prod.ext haddr hval.symm]

theorem IsList.suffix {pre : List (Nat × α)} {c : Nat × α} {post : List (Nat × α)}
    (hl : h.IsList p (pre ++ c :: post)) : h.IsList (some c.1) (c :: post) := by
  induction pre generalizing p with
  | nil =>
    obtain ⟨rfl, hrest⟩ := hl
    exact ⟨rfl, hrest⟩
  | cons d pre ih =>
    obtain ⟨-, next, -, hrest⟩ := hl
    exact ih hrest

/-- A chain that ends has no cycle. -/
theorem IsList.nodup (hl : h.IsList p cells) : (cells.map Prod.fst).Nodup := by
  induction cells generalizing p with
  | nil => simp
  | cons c rest ih =>
    obtain ⟨rfl, hhead⟩ := hl
    obtain ⟨next, hr, hrest⟩ := hhead
    refine List.nodup_cons.mpr ⟨fun hmem => ?_, ih hrest⟩
    obtain ⟨d, hd, haddr⟩ := List.mem_map.mp hmem
    obtain ⟨pre, post, rfl⟩ := List.append_of_mem hd
    have hsuffix := IsList.suffix hrest
    rw [haddr] at hsuffix
    -- from the repeated address on, the chain would be shorter than itself
    have hfull : h.IsList (some c.1) (c :: (pre ++ d :: post)) := ⟨rfl, next, hr, hrest⟩
    have hlength := congrArg List.length (hfull.unique hsuffix)
    simp only [List.length_cons, List.length_append] at hlength
    omega

/-- Linking a node behind the last one, whose `next` was null. -/
theorem IsList.append {last : Nat × α} {a : Nat} {v : α}
    (hl : h.IsList p (cells ++ [last])) (hr : h.read a = some ⟨v, none⟩)
    (hne : ∀ c ∈ cells ++ [last], a ≠ c.1) :
    (h.setNext last.1 (some a)).IsList p (cells ++ [last, (a, v)]) := by
  have hlast : ∃ next, h.read last.1 = some ⟨last.2, next⟩ := hl.read_isSome (by simp)
  obtain ⟨nextLast, hlast⟩ := hlast
  have hnotin : last.1 ∉ cells.map Prod.fst := by
    have hnodup := hl.nodup
    rw [List.map_append, List.nodup_append] at hnodup
    exact fun hmem => hnodup.2.2 _ hmem _ (by simp) rfl
  rw [setNext_of_read hlast]
  induction cells generalizing p with
  | nil =>
    obtain ⟨rfl, -⟩ := hl
    have hane : a ≠ last.1 := hne last (by simp)
    exact ⟨rfl, some a, read_write_self hlast, rfl, none, by rw [read_write_ne hane]; exact hr, rfl⟩
  | cons c rest ih =>
    obtain ⟨hp, next, hread, hrest⟩ := hl
    have hc : c.1 ≠ last.1 := fun e => hnotin (by simp [e])
    refine ⟨hp, next, by rw [read_write_ne hc]; exact hread, ih hrest ?_ ?_⟩
    · exact fun d hd => hne d (List.mem_cons_of_mem _ hd)
    · exact fun hmem => hnotin (List.mem_cons_of_mem _ hmem)

/-- Freeing a chain frees its cells and leaves every other cell alone. -/
theorem read_freeList {fuel : Nat} (hl : h.IsList p cells) (hfuel : cells.length ≤ fuel) (b : Nat) :
    (freeList fuel h p).read b = if b ∈ cells.map Prod.fst then none else h.read b := by
  induction fuel generalizing h p cells with
  | zero =>
    obtain rfl := List.eq_nil_of_length_eq_zero (Nat.le_zero.mp hfuel)
    simp [freeList]
  | succ fuel ih =>
    cases cells with
    | nil =>
      obtain rfl : p = none := hl
      simp [freeList]
    | cons c rest =>
      have hnodup := (IsList.nodup hl)
      obtain ⟨rfl, next, hr, hrest⟩ := hl
      have hnotin : c.1 ∉ rest.map Prod.fst := (List.nodup_cons.mp hnodup).1
      have hrest' : (h.free c.1).IsList next rest := by
        refine hrest.congr fun d hd => read_free_ne fun e => hnotin ?_
        exact e ▸ List.mem_map_of_mem hd
      simp only [freeList, hr]
      rw [ih hrest' (Nat.le_of_succ_le_succ hfuel)]
      by_cases hb : b = c.1
      · simp [hb]
      · simp only [read_free_ne hb, List.map_cons, List.mem_cons, hb, false_or]

theorem length_freeList (fuel : Nat) (h : Heap (Node α)) (p : Option Nat) :
    (freeList fuel h p).cells.length = h.cells.length := by
  induction fuel generalizing h p with
  | zero => rfl
  | succ fuel ih =>
    cases p with
    | none => rfl
    | some a =>
      rw [freeList]
      split
      · rfl
      · rw [ih, free, List.length_set]

/-! ### Chains and the cells that are kept -/

theorem IsList.lt_length (hl : h.IsList p cells) {c : Nat × α} (hc : c ∈ cells) :
    c.1 < h.cells.length := by
  obtain ⟨next, hr⟩ := hl.read_isSome hc
  exact lt_length_of_read hr

/-- A chain has no more cells than the heap. -/
theorem IsList.length_le (hl : h.IsList p cells) : cells.length ≤ h.cells.length := by
  have hsub : cells.map Prod.fst ⊆ List.range h.cells.length := by
    intro a ha
    obtain ⟨c, hc, rfl⟩ := List.mem_map.mp ha
    exact List.mem_range.mpr (hl.lt_length hc)
  have hle := (hl.nodup.subperm hsub).length_le
  simpa using hle

/-- A chain of the old heap is one of the new heap. -/
theorem IsList.of_extends (hl : h.IsList p cells) (hext : h.Extends h') : h'.IsList p cells :=
  hl.congr fun c hc => hext.read_eq c.1 (hl.lt_length hc)

theorem Extends.setNext (hext : h.Extends h') (hnew : h.cells.length ≤ a) (next : Option Nat) :
    h.Extends (h'.setNext a next) := by
  unfold Heap.setNext
  split
  · exact hext
  · exact hext.write hnew _

theorem Extends.freeList {fuel : Nat} (hext : h.Extends h') (hl : h'.IsList p cells)
    (hfuel : cells.length ≤ fuel) (hnew : ∀ c ∈ cells, h.cells.length ≤ c.1) :
    h.Extends (freeList fuel h' p) where
  length_le := by
    rw [length_freeList]
    exact hext.length_le
  read_eq a ha := by
    have hnotin : a ∉ cells.map Prod.fst := by
      intro hmem
      obtain ⟨c, hc, rfl⟩ := List.mem_map.mp hmem
      exact absurd ha (Nat.not_lt.mpr (hnew c hc))
    rw [read_freeList hl hfuel, if_neg hnotin, hext.read_eq a ha]

/-! ### Chains and the cells in use -/

theorem live_setNext (a : Nat) (next : Option Nat) : (h.setNext a next).live = h.live := by
  unfold setNext
  cases hr : h.read a with
  | none => rfl
  | some node => exact live_write hr

/-- Freeing a chain frees as many cells as it has. -/
theorem live_freeList {fuel : Nat} (hl : h.IsList p cells) (hfuel : cells.length ≤ fuel) :
    (freeList fuel h p).live + cells.length = h.live := by
  induction fuel generalizing h p cells with
  | zero =>
    obtain rfl := List.eq_nil_of_length_eq_zero (Nat.le_zero.mp hfuel)
    rfl
  | succ fuel ih =>
    cases cells with
    | nil =>
      obtain rfl : p = none := hl
      rfl
    | cons c rest =>
      have hnodup := hl.nodup
      obtain ⟨rfl, next, hr, hrest⟩ := hl
      have hnotin : c.1 ∉ rest.map Prod.fst := (List.nodup_cons.mp hnodup).1
      have hrest' : (h.free c.1).IsList next rest :=
        hrest.congr fun d hd => read_free_ne fun e => hnotin (e ▸ List.mem_map_of_mem hd)
      have hfirst := live_free hr
      have htail := ih hrest' (Nat.le_of_succ_le_succ hfuel)
      simp only [freeList, hr, List.length_cons]
      omega

end Heap

end Libc
