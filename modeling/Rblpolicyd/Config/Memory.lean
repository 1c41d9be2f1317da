import Rblpolicyd.Config.Read

/-!
# The memory behind the list of blacklists

While `cfg_read` reads it appends entries in new memory, and `cfg_free` frees what
it has linked when it gives up. Whatever the file and whichever allocation fails,
the cells that were there before are the same afterwards: the list that the daemon
works with outlives every attempt to read another one.

## Main definitions

* `ReadState.linked` — an entry allocated and linked at the tail
* `ReadState.Chain` — the cells of the list under construction
* `ReadState.Above` — the list under construction is in new memory

## Main results

* `ReadState.Chain.linked` — linking appends a cell
* `cfgReadLine_cases` — what one line can do to the memory
* `cfgRead_extends`, `isList_cfgRead` — `cfg_read` keeps the old memory, and each list in it
-/

namespace Rblpolicyd

open Libc

/-- The entry of a line, allocated, filled and linked. -/
def ReadState.linked (st : ReadState) (domain : Bytes) (weight : Int) : ReadState :=
  let (current, heap) := st.heap.alloc ⟨⟨domain, 0, 0, 0⟩, none⟩
  let heap := heap.write current ⟨⟨domain, weight, 0, 0⟩, none⟩
  let heap := match st.last with
    | none => heap
    | some last => heap.setNext last (some current)
  { heap := heap, first := st.first.or (some current), last := some current }

/-- The list under construction has the given cells, and `last` is the last of them. -/
structure ReadState.Chain (st : ReadState) (cells : List (Nat × Cfgitem)) : Prop where
  list : st.heap.IsList st.first cells
  last : st.last = cells.getLast?.map Prod.fst

/-- The list under construction is in memory that `heap` does not have. -/
structure ReadState.Above (heap : CfgHeap) (st : ReadState) : Prop where
  kept : heap.Extends st.heap
  chain : ∃ cells, st.Chain cells ∧ ∀ c ∈ cells, heap.cells.length ≤ c.1

variable {heap : CfgHeap} {st st' : ReadState} {cells : List (Nat × Cfgitem)} {callocOk : Bool}
  {buf : Bytes}

/-! ### Linking an entry -/

theorem ReadState.chain_nil (heap : CfgHeap) : ReadState.Chain ⟨heap, none, none⟩ [] := ⟨rfl, rfl⟩

/-- Allocating and linking an entry appends its cell. -/
theorem ReadState.Chain.linked (h : st.Chain cells) (domain : Bytes) (weight : Int) :
    (st.linked domain weight).Chain
      (cells ++ [(st.heap.cells.length, ⟨domain, weight, 0, 0⟩)]) := by
  obtain ⟨hlist, hlast⟩ := h
  have hne : ∀ c ∈ cells, st.heap.cells.length ≠ c.1 :=
    fun c hc => (Nat.ne_of_lt (hlist.lt_length hc)).symm
  let heap := (st.heap.alloc ⟨⟨domain, 0, 0, 0⟩, none⟩).2.write st.heap.cells.length
    ⟨⟨domain, weight, 0, 0⟩, none⟩
  have hnew : heap.read st.heap.cells.length = some ⟨⟨domain, weight, 0, 0⟩, none⟩ :=
    Heap.read_write_self Heap.read_alloc_self
  have hold : heap.IsList st.first cells :=
    hlist.of_extends (((Heap.Extends.refl _).alloc _).write (Nat.le_refl _) _)
  rcases List.eq_nil_or_concat cells with rfl | ⟨front, last, rfl⟩
  · have hfirst : st.first = none := hlist
    refine ⟨?_, rfl⟩
    simp only [ReadState.linked, hlast, hfirst]
    exact ⟨rfl, none, hnew, rfl⟩
  · rw [List.concat_eq_append] at *
    have hsome : st.last = some last.1 := by simpa using hlast
    have hfirst : st.first.or (some st.heap.cells.length) = st.first := by
      cases hcase : st.first with
      | some a => rfl
      | none =>
        rw [hcase] at hlist
        cases front <;> exact absurd hlist.1 (by simp)
    refine ⟨?_, by simp [ReadState.linked, Heap.alloc]⟩
    have happend := hold.append hnew hne
    simp only [ReadState.linked, hsome, Heap.alloc] at happend ⊢
    rw [hfirst, List.append_assoc]
    exact happend

/-! ### The old memory -/

theorem ReadState.above_init (heap : CfgHeap) : ReadState.Above heap ⟨heap, none, none⟩ :=
  ⟨.refl heap, [], chain_nil heap, nofun⟩

/-- An entry that is allocated but not linked. -/
theorem ReadState.Above.alloc (h : st.Above heap) (node : Node Cfgitem) :
    ReadState.Above heap { st with heap := (st.heap.alloc node).2 } := by
  obtain ⟨hext, cells, ⟨hlist, hlast⟩, hnew⟩ := h
  refine ⟨hext.alloc node, cells, ⟨?_, hlast⟩, hnew⟩
  exact hlist.of_extends ((Heap.Extends.refl _).alloc node)

theorem ReadState.Above.linked (h : st.Above heap) (domain : Bytes) (weight : Int) :
    ReadState.Above heap (st.linked domain weight) := by
  obtain ⟨hext, cells, hchain, hnew⟩ := h
  have hwritten : heap.Extends ((st.heap.alloc ⟨⟨domain, 0, 0, 0⟩, none⟩).2.write
      st.heap.cells.length ⟨⟨domain, weight, 0, 0⟩, none⟩) :=
    (hext.alloc _).write hext.length_le _
  refine ⟨?_, _, hchain.linked domain weight, ?_⟩
  · unfold ReadState.linked
    cases hlast : st.last with
    | none => exact hwritten
    | some last =>
      -- the node whose link is set is one of the list under construction
      have hmem : ∃ c ∈ cells, c.1 = last := by
        have hget := hchain.last.symm.trans hlast
        obtain ⟨c, hc, rfl⟩ := Option.map_eq_some_iff.mp hget
        exact ⟨c, List.mem_of_getLast? hc, rfl⟩
      obtain ⟨c, hc, rfl⟩ := hmem
      exact hwritten.setNext (hnew c hc) _
  · intro c hc
    rcases List.mem_append.mp hc with hc | hc
    · exact hnew c hc
    · rw [List.mem_singleton.mp hc]
      exact hext.length_le

/-- What one line can do to the memory: nothing, with or without an error; an allocation
that is lost to an error; or a new entry. -/
theorem cfgReadLine_cases (callocOk : Bool) (buf : Bytes) (st : ReadState) :
    cfgReadLine callocOk buf st = .ok st ∨ cfgReadLine callocOk buf st = .error st ∨
      (∃ node, cfgReadLine callocOk buf st = .error { st with heap := (st.heap.alloc node).2 }) ∨
      ∃ domain weight, cfgReadLine callocOk buf st = .ok (st.linked domain weight) := by
  rw [cfgReadLine]
  generalize cstr (cfgCleanline (buf ++ [nul])) = line
  by_cases hline : line = []
  · exact .inl (by simp only [hline, if_true])
  obtain ⟨x, temp, hscan⟩ : ∃ x temp, scanDomain line [] = (x, temp) := ⟨_, _, rfl⟩
  obtain ⟨n, y, hnum⟩ : ∃ n y, strtol0 (x.dropWhile isspace) = (n, y) := ⟨_, _, rfl⟩
  simp only [hscan, hnum, hline, if_false]
  by_cases hx : x = []
  · exact .inr (.inl (by simp only [hx, if_true]))
  cases callocOk with
  | false => exact .inr (.inl (by simp only [hx, Bool.not_false, if_true, if_false]))
  | true =>
    simp only [hx, Bool.not_true, Bool.false_eq_true, if_false]
    by_cases hy : y ≠ []
    · exact .inr (.inr (.inl ⟨_, by rw [if_pos hy]⟩))
    by_cases hrange : n ≤ 0 ∨ n > shrtMax
    · exact .inr (.inr (.inl ⟨_, by rw [if_neg hy, if_pos hrange]⟩))
    · exact .inr (.inr (.inr ⟨temp, n, by rw [if_neg hy, if_neg hrange]; rfl⟩))

/-- With or without an error a line leaves the list under construction in new memory. -/
theorem ReadState.Above.line (h : st.Above heap) :
    (∀ st', cfgReadLine callocOk buf st = .ok st' → st'.Above heap) ∧
      ∀ st', cfgReadLine callocOk buf st = .error st' → st'.Above heap := by
  rcases cfgReadLine_cases callocOk buf st with hline | hline | ⟨node, hline⟩ |
    ⟨domain, weight, hline⟩
  all_goals
    rw [hline]
    refine ⟨fun st' hst' => ?_, fun st' hst' => ?_⟩
    all_goals cases hst'
  · exact h
  · exact h
  · exact h.alloc node
  · exact h.linked domain weight

theorem ReadState.Above.loop (h : st.Above heap) (callocOk : Nat → Bool) (lineno : Nat)
    (bufs : List Bytes) :
    (∀ st', cfgReadLoop callocOk lineno bufs st = .ok st' → st'.Above heap) ∧
      ∀ st', cfgReadLoop callocOk lineno bufs st = .error st' → st'.Above heap := by
  induction bufs generalizing st lineno with
  | nil =>
    refine ⟨fun st' hst' => ?_, fun st' hst' => ?_⟩
    · obtain rfl := Except.ok.inj hst'
      exact h
    · cases hst'
  | cons buf bufs ih =>
    rw [cfgReadLoop]
    cases hline : cfgReadLine (callocOk lineno) buf st with
    | error st₁ =>
      refine ⟨fun st' hst' => ?_, fun st' hst' => ?_⟩
      · cases hst'
      · obtain rfl := Except.error.inj hst'
        exact h.line.2 _ hline
    | ok st₁ => exact ih (h.line.1 _ hline) (lineno + 1)

/-- Whether it returns a list or gives up, `cfg_read` keeps the cells that were there. -/
theorem cfgRead_extends (callocOk : Nat → Bool) (heap : CfgHeap) (file : Option Bytes) :
    heap.Extends (cfgRead callocOk heap file).2 := by
  cases file with
  | none => exact .refl heap
  | some content =>
    have hloop := (ReadState.above_init heap).loop callocOk 1 (fileBuffers content)
    rw [cfgRead]
    cases hread : cfgReadLoop callocOk 1 (fileBuffers content) ⟨heap, none, none⟩ with
    | ok st => exact (hloop.1 st hread).kept
    | error st =>
      obtain ⟨hext, cells, hchain, hnew⟩ := hloop.2 st hread
      exact hext.freeList hchain.list hchain.list.length_le hnew

/-- A list outlives every attempt to read another one. -/
theorem isList_cfgRead {first : Option Nat} (hlist : heap.IsList first cells)
    (callocOk : Nat → Bool) (file : Option Bytes) :
    (cfgRead callocOk heap file).2.IsList first cells :=
  hlist.of_extends (cfgRead_extends callocOk heap file)

end Rblpolicyd
