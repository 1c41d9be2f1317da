import Rblpolicyd.Daemon.ThreadList
import Rblpolicyd.Libc.DoublyLinked

/-!
# Traversals of the list of a thread manager

With the manager locked a call finds the list well formed, and whatever it changes
concerns one node of its own: the one it puts in, or the one it takes out. So every
node that is in memory points to nodes that are in memory, and a traversal under the
mutex stays among them.

## Main definitions

* `Layout` — the nodes in memory are those of the list and one more at most
* `CallPc.Shape` — the list at each point of the call that has the manager locked

## Main results

* `CallPc.Shape.step` — the list keeps its shape from one point to the next
* `CallPc.Shape.accesses_live` — what is accessed under the mutex is in memory
-/

namespace Rblpolicyd

open Libc Libc.Heap Semantics

/-- The node that only the call knows: it is in memory, and not in the list. -/
def CallPc.own : CallPc → Option Nat
  | .linkNext node | .linkLast node | .clearLast node | .linkHead node => some node
  | .unlinkLast thr | .free thr => some thr
  | _ => none

/-- The nodes in memory are those of the list and one more at most. -/
structure Layout (mem : MgrMemory) (cells : List (Nat × Thrd)) (extra : Option Nat) : Prop where
  list : mem.heap.IsList mem.tlist cells
  live : ∀ x, mem.heap.read x ≠ none ↔ x ∈ cells.map Prod.fst ∨ extra = some x
  unlisted : ∀ x, extra = some x → x ∉ cells.map Prod.fst
  next : ∀ x node y, extra = some x → mem.heap.read x = some node → node.next = some y →
    y ∈ cells.map Prod.fst

/-- The links back, and what else is known at each point of the call that has the manager
locked. -/
def CallPc.Links (mem : MgrMemory) (cells : List (Nat × Thrd)) : CallPc → Prop
  | .linkLast node => LinkedBack Thrd.last none cells ∧
      ∃ thrd, mem.heap.read node = some ⟨thrd, mem.tlist⟩
  | .clearLast node => LinkedBack Thrd.last (some node) cells ∧
      ∃ thrd, mem.heap.read node = some ⟨thrd, mem.tlist⟩
  | .linkHead node => LinkedBack Thrd.last (some node) cells ∧
      ∃ tid, mem.heap.read node = some ⟨⟨tid, none⟩, mem.tlist⟩
  | .checkLast _ thr | .search _ thr => LinkedBack Thrd.last none cells ∧
      ∀ x, thr = some x → x ∈ cells.map Prod.fst
  | .checkNext _ thr | .searchNext _ thr | .unlinkNext thr =>
    LinkedBack Thrd.last none cells ∧ thr ∈ cells.map Prod.fst
  -- the node behind the one that is taken out still names it
  | .unlinkLast thr => ∃ before behind, cells = before ++ behind ∧
      LinkedBack Thrd.last none before ∧ LinkedBack Thrd.last (some thr) behind ∧
      ∃ thrd, mem.heap.read thr = some ⟨thrd, firstAddr behind⟩ ∧
        thrd.last = lastAddr none before
  | _ => LinkedBack Thrd.last none cells

/-- The list at each point of the call that has the manager locked. -/
structure CallPc.Shape (mem : MgrMemory) (cells : List (Nat × Thrd)) (pc : CallPc) : Prop where
  layout : Layout mem cells pc.own
  links : pc.Links mem cells

variable {mem mem' : MgrMemory} {cells before behind : List (Nat × Thrd)} {extra : Option Nat}
  {x y tid : Nat} {pc pc' : CallPc} {node : Node Thrd} {thrd : Thrd}
  {p last next : Option Nat}

/-! ### Nodes in memory point to nodes in memory -/

theorem Layout.live_of_mem (h : Layout mem cells extra) (hx : x ∈ cells.map Prod.fst) :
    mem.heap.read x ≠ none :=
  (h.live x).mpr (.inl hx)

theorem Layout.mem_of_tlist (h : Layout mem cells extra) (hx : mem.tlist = some x) :
    x ∈ cells.map Prod.fst := by
  rw [h.list.eq_firstAddr] at hx
  exact mem_of_firstAddr hx

/-- A node of the list has the next one of the list behind it. -/
theorem Layout.next_of_mem (h : Layout mem cells extra) (hx : x ∈ cells.map Prod.fst)
    (hnode : mem.heap.read x = some node) (hy : node.next = some y) : y ∈ cells.map Prod.fst := by
  obtain ⟨⟨x, thrd⟩, hcell, rfl⟩ := List.mem_map.mp hx
  obtain ⟨before, behind, rfl⟩ := List.append_of_mem hcell
  have hread := h.list.next_eq
  obtain rfl := Option.some.inj (hnode.symm.trans hread)
  rw [List.map_append, List.map_cons]
  apply List.mem_append_right
  exact List.mem_cons_of_mem _ (mem_of_firstAddr hy)

theorem Layout.closed (h : Layout mem cells extra) (hnode : mem.heap.read x = some node)
    (hy : node.next = some y) : mem.heap.read y ≠ none := by
  apply h.live_of_mem
  rcases (h.live x).mp (by rw [hnode]; nofun) with hx | hx
  · exact h.next_of_mem hx hnode hy
  · exact h.next x node y hx hnode hy

/-! ### The writes -/

/-- A call writes to a node that only it knows. -/
theorem Layout.writeOwn (h : Layout mem cells (some x)) (hnode : mem.heap.read x = some node)
    {node' : Node Thrd} (hnext : ∀ y, node'.next = some y → y ∈ cells.map Prod.fst) :
    Layout { mem with heap := mem.heap.write x node' } cells (some x) where
  list := h.list.congr (read_write_of_not_mem (h.unlisted x rfl))
  live y := by
    by_cases hy : y = x
    · subst hy
      simp [read_write_self hnode]
    · rw [read_write_ne hy, h.live y]
  unlisted := h.unlisted
  next := by
    rintro _ found y ⟨⟩ hfound hy
    rw [read_write_self hnode] at hfound
    obtain rfl := Option.some.inj hfound
    exact hnext y hy

/-- A call changes the value of a node of the list. -/
theorem Layout.writeVal (h : Layout mem (before ++ (x, thrd) :: behind) extra) (thrd' : Thrd) :
    Layout { mem with heap := mem.heap.write x ⟨thrd', firstAddr behind⟩ }
      (before ++ (x, thrd') :: behind) extra := by
  have haddrs : (before ++ (x, thrd') :: behind).map Prod.fst =
      (before ++ (x, thrd) :: behind).map Prod.fst := by
    rw [List.map_append, List.map_append]
    rfl
  have hread := h.list.next_eq
  refine ⟨h.list.write_val thrd', ?_, ?_, ?_⟩
  · intro y
    rw [haddrs, ← h.live y]
    by_cases hy : y = x
    · subst hy
      simp [read_write_self hread, hread]
    · rw [read_write_ne hy]
  · rw [haddrs]
    exact h.unlisted
  · intro y found z hy hfound hz
    have hne : y ≠ x := by
      rintro rfl
      exact h.unlisted y hy (by simp)
    rw [read_write_ne hne] at hfound
    rw [haddrs]
    exact h.next y found z hy hfound hz

/-- A node is allocated. -/
theorem Layout.alloc (h : Layout mem cells none) (thrd : Thrd) (nthreads : UInt32) :
    Layout ⟨(mem.heap.alloc ⟨thrd, none⟩).2, mem.tlist, nthreads⟩ cells
      (some (mem.heap.alloc ⟨thrd, none⟩).1) where
  list := h.list.of_extends ((Extends.refl mem.heap).alloc _)
  live y := by
    by_cases hy : y = mem.heap.cells.length
    · subst hy
      have hnew : (mem.heap.alloc ⟨thrd, none⟩).2.read mem.heap.cells.length =
        some ⟨thrd, none⟩ := read_alloc_self
      exact iff_of_true (by rw [hnew]; nofun) (.inr rfl)
    · rw [read_alloc_ne hy, h.live y]
      simp [Heap.alloc, Ne.symm hy]
  unlisted := by
    rintro _ ⟨⟩ hmem
    obtain ⟨c, hc, hlength⟩ := List.mem_map.mp hmem
    have hlt := h.list.lt_length hc
    rw [hlength] at hlt
    exact Nat.lt_irrefl _ hlt
  next := by
    rintro _ found y ⟨⟩ hfound hy
    rw [read_alloc_self] at hfound
    obtain rfl := Option.some.inj hfound
    cases hy

/-- The node that a call puts in front of the list. -/
theorem Layout.linkHead (h : Layout mem cells (some x))
    (hnode : mem.heap.read x = some ⟨thrd, mem.tlist⟩) :
    Layout { mem with tlist := some x } ((x, thrd) :: cells) none where
  list := ⟨rfl, mem.tlist, hnode, h.list⟩
  live y := by
    rw [h.live y]
    simp [or_comm, eq_comm]
  unlisted := nofun
  next := nofun

/-- The node that is freed is not in the list any more. -/
theorem Layout.free (h : Layout mem cells (some x)) (nthreads : UInt32) :
    Layout { mem with heap := mem.heap.free x, nthreads := nthreads } cells none where
  list := by
    apply h.list.congr
    intro c hc
    apply read_free_ne
    rintro rfl
    exact h.unlisted _ rfl (List.mem_map_of_mem hc)
  live y := by
    by_cases hy : y = x
    · subst hy
      simpa using h.unlisted y rfl
    · rw [read_free_ne hy, h.live y]
      simp [Ne.symm hy]
  unlisted := nofun
  next := nofun

/-- The pointer to a node of the list is set to the node behind it, which leaves the node itself
alone. -/
theorem setNextOf_spec (hlist : mem.heap.IsList mem.tlist (before ++ (x, thrd) :: behind))
    (hset : mem.setNextOf (lastAddr none before) (firstAddr behind) = some mem') :
    mem'.heap.IsList mem'.tlist (before ++ behind) ∧
      (∀ y, mem'.heap.read y ≠ none ↔ mem.heap.read y ≠ none) ∧
      mem'.heap.read x = some ⟨thrd, firstAddr behind⟩ := by
  have hread := hlist.next_eq
  obtain ⟨hbefore, -⟩ := not_mem_of_nodup hlist.nodup
  rcases lastAddr_cases none before with ⟨rfl, hnone⟩ | ⟨pre, ⟨a, w⟩, rfl, hsome⟩
  · rw [hnone] at hset
    obtain rfl := Option.some.inj hset
    obtain ⟨-, next, hnext, hrest⟩ := hlist
    rw [hread, Option.some.injEq, Node.mk.injEq] at hnext
    rw [← hnext.2] at hrest
    exact ⟨hrest, fun _ => Iff.rfl, hread⟩
  · rw [hsome] at hset
    obtain ⟨old, hold, rfl⟩ := Option.map_eq_some_iff.mp hset
    rw [List.append_assoc] at hlist
    obtain rfl := Option.some.inj (hold.symm.trans hlist.next_eq)
    refine ⟨?_, fun y => ?_, ?_⟩
    · rw [List.append_assoc]
      exact hlist.unlink
    · by_cases hy : y = a
      · subst hy
        simp [read_write_self hold, hold]
      · rw [read_write_ne hy]
    · have hne : x ≠ a := by
        rintro rfl
        exact hbefore (by simp)
      rw [read_write_ne hne, hread]

/-- A node is taken out of the list, and is the one that only the call knows. -/
theorem Layout.unlink (h : Layout mem (before ++ (x, thrd) :: behind) none)
    (hlast : thrd.last = lastAddr none before)
    (hset : mem.setNextOf thrd.last (firstAddr behind) = some mem') :
    Layout mem' (before ++ behind) (some x) ∧
      mem'.heap.read x = some ⟨thrd, firstAddr behind⟩ := by
  obtain ⟨hbefore, hbehind⟩ := not_mem_of_nodup h.list.nodup
  rw [hlast] at hset
  obtain ⟨hlist, hsame, hread⟩ := setNextOf_spec h.list hset
  refine ⟨⟨hlist, fun y => ?_, ?_, ?_⟩, hread⟩
  · rw [hsame, h.live y]
    simp only [List.map_append, List.map_cons, List.mem_append, List.mem_cons, reduceCtorEq,
      Option.some.injEq, or_false, eq_comm (a := y)]
    tauto
  · rintro _ ⟨⟩
    rw [List.map_append, List.mem_append, not_or]
    exact ⟨hbefore, hbehind⟩
  · rintro _ found y ⟨⟩ hfound hy
    obtain rfl := Option.some.inj (hread.symm.trans hfound)
    rw [List.map_append]
    exact List.mem_append_right _ (mem_of_firstAddr hy)

/-- What a node of the list keeps: its address and its thread. -/
def nodeKey (cell : Nat × Thrd) : Nat × Nat := (cell.1, cell.2.tid)

/-- A node of the list, or none, gets a new value of `last`. -/
theorem Layout.setLastOf (h : Layout mem (before ++ behind) extra)
    (hset : mem.setLastOf (firstAddr behind) last = some mem') :
    ∃ behind', Layout mem' (before ++ behind') extra ∧
      behind'.map nodeKey = behind.map nodeKey ∧
      mem'.tlist = mem.tlist ∧ (∀ y, extra = some y → mem'.heap.read y = mem.heap.read y) ∧
      ∀ prev, LinkedBack Thrd.last prev behind → LinkedBack Thrd.last last behind' := by
  cases behind with
  | nil =>
    obtain rfl := Option.some.inj hset
    exact ⟨[], h, rfl, rfl, fun _ _ => rfl, fun _ _ => trivial⟩
  | cons c rest =>
    obtain ⟨x, thrd⟩ := c
    obtain ⟨old, hold, rfl⟩ := Option.map_eq_some_iff.mp hset
    obtain rfl := Option.some.inj (hold.symm.trans h.list.next_eq)
    refine ⟨_, h.writeVal { thrd with last := last }, rfl, rfl, ?_, ?_⟩
    · intro y hy
      apply read_write_ne
      rintro rfl
      exact h.unlisted _ hy (by simp)
    · rintro prev ⟨-, hrest⟩
      exact ⟨rfl, hrest⟩

/-! ### The steps of the call that has the manager locked -/

namespace CallPc

/-- A step that changes nothing in memory. -/
theorem Shape.stay (h : pc.Shape mem cells) (hown : pc'.own = pc.own)
    (hlinks : pc'.Links mem cells) : ∃ cells', pc'.Shape mem cells' :=
  ⟨cells, hown ▸ h.layout, hlinks⟩

/-- The next node of a traversal is in the list. -/
theorem Shape.hop (h : pc.Shape mem cells) (hx : x ∈ cells.map Prod.fst)
    (hnode : mem.heap.read x = some node) :
    ∀ y, node.next = some y → y ∈ cells.map Prod.fst :=
  fun _ hy => h.layout.next_of_mem hx hnode hy

theorem Shape.linkNext (h : Shape mem cells (.linkNext x))
    (hset : mem.setNext x mem.tlist = some mem') : Shape mem' cells (.linkLast x) := by
  obtain ⟨old, hold, rfl⟩ := Option.map_eq_some_iff.mp hset
  refine ⟨h.layout.writeOwn hold fun y hy => ?_, h.links, old.val, read_write_self hold⟩
  exact h.layout.mem_of_tlist hy

theorem Shape.linkLast (h : Shape mem cells (.linkLast x)) (hnode : mem.heap.read x = some node)
    (hset : mem.setLastOf node.next (some x) = some mem') :
    ∃ cells', Shape mem' cells' (.clearLast x) := by
  obtain ⟨hback, thrd, hread⟩ := h.links
  obtain rfl := Option.some.inj (hnode.symm.trans hread)
  rw [h.layout.list.eq_firstAddr] at hset
  have hlayout : Layout mem ([] ++ cells) (some x) := h.layout
  obtain ⟨cells', hlayout', -, htlist, hsame, hback'⟩ := hlayout.setLastOf hset
  refine ⟨cells', hlayout', hback' none hback, thrd, ?_⟩
  rw [hsame x rfl, htlist]
  exact hread

theorem Shape.clearLast (h : Shape mem cells (.clearLast x))
    (hset : mem.setLast x none = some mem') : Shape mem' cells (.linkHead x) := by
  obtain ⟨hback, thrd, hread⟩ := h.links
  obtain ⟨old, hold, rfl⟩ := Option.map_eq_some_iff.mp hset
  obtain rfl := Option.some.inj (hold.symm.trans hread)
  refine ⟨h.layout.writeOwn hold fun y hy => ?_, hback, thrd.tid, read_write_self hold⟩
  exact h.layout.mem_of_tlist hy

theorem Shape.unlinkNext (h : Shape mem cells (.unlinkNext x))
    (hnode : mem.heap.read x = some node)
    (hset : mem.setNextOf node.val.last node.next = some mem') :
    ∃ cells', Shape mem' cells' (.unlinkLast x) := by
  obtain ⟨hback, hx⟩ := h.links
  obtain ⟨⟨x, thrd⟩, hcell, rfl⟩ := List.mem_map.mp hx
  obtain ⟨before, behind, rfl⟩ := List.append_of_mem hcell
  obtain rfl := Option.some.inj (hnode.symm.trans h.layout.list.next_eq)
  obtain ⟨hbefore, hlast, hbehind⟩ := linkedBack_append.mp hback
  obtain ⟨hlayout, hread⟩ := h.layout.unlink hlast hset
  exact ⟨_, hlayout, before, behind, rfl, hbefore, hbehind, thrd, hread, hlast⟩

theorem Shape.unlinkLast (h : Shape mem cells (.unlinkLast x))
    (hnode : mem.heap.read x = some node)
    (hset : mem.setLastOf node.next node.val.last = some mem') :
    ∃ cells', Shape mem' cells' (.free x) := by
  obtain ⟨before, behind, rfl, hbefore, hbehind, thrd, hread, hlast⟩ := h.links
  obtain rfl := Option.some.inj (hnode.symm.trans hread)
  obtain ⟨behind', hlayout, -, -, -, hback⟩ := h.layout.setLastOf hset
  refine ⟨_, hlayout, linkedBack_append.mpr ⟨hbefore, ?_⟩⟩
  rw [← hlast]
  exact hback _ hbehind

/-- The list stays well formed, from one point of a call to the next. -/
theorem Shape.step (h : pc.Shape mem cells) (hstep : StepsTo mem tid pc mem' pc') :
    ∃ cells', pc'.Shape mem' cells' := by
  cases hstep with
  | malloc => exact ⟨cells, h.layout.alloc _ _, h.links⟩
  | mallocFails => exact ⟨cells, ⟨h.layout.list, h.layout.live, nofun, nofun⟩, h.links⟩
  | linkNext hset => exact ⟨cells, h.linkNext hset⟩
  | linkLast hnode hset => exact h.linkLast hnode hset
  | clearLast hset => exact ⟨cells, h.clearLast hset⟩
  | linkHead =>
    obtain ⟨hback, thread, hread⟩ := h.links
    exact ⟨_, h.layout.linkHead hread, rfl, hback⟩
  | unlinkNext hnode hset => exact h.unlinkNext hnode hset
  | unlinkLast hnode hset => exact h.unlinkLast hnode hset
  | free => exact ⟨cells, h.layout.free _, h.links⟩
  -- a traversal begins at the first node, and ends
  | checkInit | searchInit =>
    exact h.stay rfl ⟨h.links, fun _ hx => h.layout.mem_of_tlist hx⟩
  | checkEnd | searchEnd => exact h.stay rfl h.links.1
  | checkLast | found | search => exact h.stay rfl ⟨h.links.1, h.links.2 _ rfl⟩
  | checkNext hnode | searchNext hnode =>
    exact h.stay rfl ⟨h.links.1, h.hop h.links.2 hnode⟩
  | registerLock | registerUnlock | unregisterLock | unregistered | notFound | countInit
  | countEnd | count => exact h.stay rfl h.links

/-- What a call accesses while it has the manager locked is in memory. -/
theorem Shape.accesses_live (h : pc.Shape mem cells) (hholds : pc.holds = true)
    (hx : x ∈ pc.accesses mem) : mem.heap.read x ≠ none := by
  have hown : pc.own = some x → mem.heap.read x ≠ none := fun hx => (h.layout.live x).mpr (.inr hx)
  cases pc with
  | linkNext node | clearLast node =>
    obtain rfl := List.mem_singleton.mp hx
    exact hown rfl
  | checkNext _ thr | searchNext _ thr =>
    obtain rfl := List.mem_singleton.mp hx
    exact h.layout.live_of_mem h.links.2
  | search _ thr =>
    apply h.layout.live_of_mem
    exact h.links.2 x (Option.mem_toList.mp hx)
  | checkLast nthr thr =>
    change x ∈ (if nthr = 0 then _ else _) at hx
    split at hx
    · cases hx
    · apply h.layout.live_of_mem
      exact h.links.2 x (Option.mem_toList.mp hx)
  | linkLast node | unlinkLast thr =>
    rcases List.mem_cons.mp hx with rfl | hx
    · exact hown rfl
    · obtain ⟨found, hfound, hnext⟩ := Option.bind_eq_some_iff.mp (Option.mem_toList.mp hx)
      exact h.layout.closed hfound hnext
  | unlinkNext thr =>
    obtain ⟨hback, hthr⟩ := h.links
    rcases List.mem_cons.mp hx with rfl | hx
    · exact h.layout.live_of_mem hthr
    · obtain ⟨found, hfound, hlast⟩ := Option.bind_eq_some_iff.mp (Option.mem_toList.mp hx)
      obtain ⟨⟨thr, thrd⟩, hcell, rfl⟩ := List.mem_map.mp hthr
      obtain ⟨before, behind, rfl⟩ := List.append_of_mem hcell
      obtain rfl := Option.some.inj (hfound.symm.trans h.layout.list.next_eq)
      -- the node before is the one that the link back names
      obtain ⟨-, hprev, -⟩ := linkedBack_append.mp hback
      rw [hlast] at hprev
      apply h.layout.live_of_mem
      rw [List.map_append]
      exact List.mem_append_left _ (mem_of_lastAddr hprev.symm)
  | registerLock | malloc | linkHead | checkInit | registerUnlock | unregisterLock | searchInit
  | free | unregisterUnlock | countInit | returned => cases hx
  | count => cases hholds

end CallPc

end Rblpolicyd
