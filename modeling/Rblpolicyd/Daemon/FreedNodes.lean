import Rblpolicyd.Daemon.Traversal

/-!
# Nodes that are freed while they are counted

The search of `thr_unregister` and the loop of `thr_register` run under the mutex. The
count at the end of `thr_unregister` runs behind the unlock: whatever it stands on was
in memory when it got there, and another call may unlink and free it before the count
reads its `next` pointer. Nothing else can go wrong.

## Main definitions

* `ThreadList.NoneFreed` — no call is about to access a node that was freed
* `ThreadList.FreesUnwatched` — no count stands on the node that is freed in this step

## Main results

* `ThreadList.noneFreed_iff` — as long as this is so, no freed node is accessed
* `ThreadList.count_follows_freed` — a count that follows a freed node
-/

namespace Rblpolicyd

open Libc Libc.Heap Semantics

namespace CallPc

/-- The node that is freed in the next step. -/
def freed : CallPc → Option Nat
  | .free thr => some thr
  | _ => none

/-- The node a count stands on. -/
def counts : CallPc → Option Nat
  | .count _ thr => thr
  | _ => none

end CallPc

namespace MgrMemory

variable {mem mem' : MgrMemory} {x y : Nat} {next last node : Option Nat}

/-- No node is freed on the way from one memory to another. -/
def Keeps (mem mem' : MgrMemory) : Prop :=
  ∀ x, mem.heap.read x ≠ none → mem'.heap.read x ≠ none

theorem keeps_write {node node' : Node Thrd} (hread : mem.heap.read y = some node) :
    mem.Keeps { mem with heap := mem.heap.write y node' } := by
  intro x hx
  by_cases hxy : x = y
  · subst hxy
    rw [read_write_self hread]
    nofun
  · rwa [read_write_ne hxy]

theorem keeps_setNext (h : mem.setNext y next = some mem') : mem.Keeps mem' := by
  obtain ⟨old, hread, rfl⟩ := Option.map_eq_some_iff.mp h
  exact keeps_write hread

theorem keeps_setLast (h : mem.setLast y last = some mem') : mem.Keeps mem' := by
  obtain ⟨old, hread, rfl⟩ := Option.map_eq_some_iff.mp h
  exact keeps_write hread

theorem keeps_setLastOf (h : mem.setLastOf node last = some mem') : mem.Keeps mem' := by
  cases node with
  | none =>
    obtain rfl := Option.some.inj h
    exact fun _ hx => hx
  | some node => exact keeps_setLast h

theorem keeps_setNextOf (h : mem.setNextOf last next = some mem') : mem.Keeps mem' := by
  cases last with
  | none =>
    obtain rfl := Option.some.inj h
    exact fun _ hx => hx
  | some last => exact keeps_setNext h

theorem keeps_alloc (thrd : Node Thrd) (nthreads : UInt32) :
    mem.Keeps ⟨(mem.heap.alloc thrd).2, mem.tlist, nthreads⟩ := by
  intro x hx
  by_cases hnew : x = mem.heap.cells.length
  · have hsome := read_alloc_self (h := mem.heap) (v := thrd)
    rw [hnew]
    change (mem.heap.alloc thrd).2.read mem.heap.cells.length = _ at hsome
    rw [hsome]
    nofun
  · rwa [read_alloc_ne hnew]

end MgrMemory

namespace CallPc

variable {mem mem' : MgrMemory} {pc pc' : CallPc} {tid x : Nat} {cells : List (Nat × Thrd)}
  {extra : Option Nat}

/-- A step keeps every node but the one that it frees. -/
theorem StepsTo.live (hstep : StepsTo mem tid pc mem' pc')
    (hfreed : pc.freed ≠ some x) (hx : mem.heap.read x ≠ none) : mem'.heap.read x ≠ none := by
  cases hstep with
  | malloc => exact MgrMemory.keeps_alloc _ _ x hx
  | linkNext hset => exact MgrMemory.keeps_setNext hset x hx
  | clearLast hset => exact MgrMemory.keeps_setLast hset x hx
  | linkLast _ hset | unlinkLast _ hset => exact MgrMemory.keeps_setLastOf hset x hx
  | unlinkNext _ hset => exact MgrMemory.keeps_setNextOf hset x hx
  | @free thr =>
    have hne : x ≠ thr := by
      rintro rfl
      exact hfreed rfl
    rwa [read_free_ne hne]
  | _ => exact hx

/-- A count gets to a node that is in memory. -/
theorem StepsTo.counts_live (h : Layout mem cells extra) (hstep : StepsTo mem tid pc mem' pc')
    (hx : pc'.counts = some x) : mem'.heap.read x ≠ none := by
  cases hstep with
  | countInit =>
    apply h.live_of_mem
    exact h.mem_of_tlist hx
  | count hnode => exact h.closed hnode hx
  | _ => cases hx

/-- A call that does not have the manager locked changes nothing in memory. -/
theorem StepsTo.mem_eq (hstep : StepsTo mem tid pc mem' pc') (hout : pc.holds ≠ true) :
    mem' = mem := by
  cases hstep with
  | registerLock | unregisterLock | countInit | countEnd | count => rfl
  | _ => exact absurd rfl hout

/-- The list outside the critical section. -/
theorem shape_iff_of_not_holds (hout : pc.holds ≠ true) :
    pc.Shape mem cells ↔ Layout mem cells none ∧ LinkedBack Thrd.last none cells := by
  cases pc with
  | registerLock | unregisterLock | countInit | count | returned =>
    exact ⟨fun h => ⟨h.layout, h.links⟩, fun h => ⟨h.1, h.2⟩⟩
  | _ => exact absurd rfl hout

/-- Outside the critical section only a count accesses a node. -/
theorem accesses_of_not_holds (hout : pc.holds ≠ true) :
    pc.accesses mem = pc.counts.toList := by
  cases pc with
  | registerLock | unregisterLock | countInit | count | returned => rfl
  | _ => exact absurd rfl hout

theorem eq_free_of_freed (h : pc.freed = some x) : pc = .free x := by
  cases pc with
  | free thr => rw [Option.some.inj h]
  | _ => cases h

theorem accesses_of_counts (h : pc.counts = some x) : pc.accesses mem = [x] := by
  cases pc with
  | count nthr thr =>
    change thr.toList = [x]
    rw [show thr = some x from h]
    rfl
  | _ => cases h

end CallPc

namespace ThreadList

/-- Call `i` has the manager locked. -/
def Holds (s : ThreadList) (i : Nat) : Prop :=
  ∃ call, s.calls[i]? = some call ∧ call.pc.holds = true

/-- What holds of the memory and of all calls, as long as no node is freed under a count. -/
structure Intact (s : ThreadList) : Prop where
  guarded : Guarded s.lock s.Holds
  resting : s.lock = none →
    ∃ cells, Layout s.mem cells none ∧ LinkedBack Thrd.last none cells
  shape : ∀ (i : Nat) (call : Call), s.calls[i]? = some call → call.pc.holds = true →
    ∃ cells, call.pc.Shape s.mem cells
  counts : ∀ call ∈ s.calls, ∀ x, call.pc.counts = some x → s.mem.heap.read x ≠ none

/-- No call is about to access a node that was freed. -/
def NoneFreed (s : ThreadList) : Prop :=
  ∀ call ∈ s.calls, ∀ x ∈ call.pc.accesses s.mem, s.mem.heap.read x ≠ none

/-- The node that is freed in this step. -/
def freed (s : ThreadList) : Action → Option Nat
  | .call i _ => s.calls[i]?.bind fun call => call.pc.freed
  | _ => none

/-- No count stands on the node that is freed in this step. -/
def FreesUnwatched (s : ThreadList) (a : Action) : Prop :=
  ∀ thr ∈ s.freed a, ∀ call ∈ s.calls, call.pc.counts ≠ some thr

variable {s s' t t' : ThreadList} {a : Action} {i j x : Nat} {ok : Bool} {call other : Call}
  {lock : Option Nat} {mem : MgrMemory} {pc pc' : CallPc} {w : List Action}

theorem lockBehind_lockStep (hlock : s.lockBehind i pc = some lock)
    (hstep : CallPc.StepsTo s.mem call.tid pc mem pc') :
    LockStep i s.lock lock (pc.holds = true) (pc'.holds = true) := by
  cases hstep with
  | registerLock | unregisterLock =>
    obtain ⟨hfree, heq⟩ := Option.ite_none_right_eq_some.mp hlock
    exact .acquire hfree (Option.some.inj heq).symm rfl
  | registerUnlock | unregistered | notFound =>
    exact .release rfl (Option.some.inj hlock).symm nofun
  -- the call stays inside, or outside
  | _ => exact .keep (Option.some.inj hlock).symm Iff.rfl

theorem getElem?_set_cases {call' : Call} (h : (s.calls.set i call')[j]? = some other) :
    j = i ∧ other = call' ∨ j ≠ i ∧ s.calls[j]? = some other := by
  by_cases hij : j = i
  · subst hij
    rw [List.getElem?_set_self'] at h
    obtain ⟨_, -, heq⟩ := Option.map_eq_some_iff.mp h
    exact .inl ⟨rfl, heq.symm⟩
  · rw [List.getElem?_set_ne (Ne.symm hij)] at h
    exact .inr ⟨hij, h⟩

theorem getElem?_concat_cases (h : (s.calls ++ [call])[j]? = some other) :
    s.calls[j]? = some other ∨ other = call := by
  rw [List.getElem?_append] at h
  split at h
  · exact .inl h
  · exact .inr (List.mem_singleton.mp (List.mem_of_getElem? h))

theorem holds_of_getElem? (hcall : s.calls[i]? = some call) :
    s.Holds i ↔ call.pc.holds = true := by
  constructor
  · rintro ⟨other, hother, hholds⟩
    obtain rfl := Option.some.inj (hcall.symm.trans hother)
    exact hholds
  · exact fun hholds => ⟨call, hcall, hholds⟩

/-! ### What every step keeps -/

theorem Intact.init : Intact init where
  guarded i := by simp [ThreadList.init, Holds]
  resting _ := by
    refine ⟨[], ⟨rfl, ?_, nofun, nofun⟩, trivial⟩
    intro x
    simp [ThreadList.init, Heap.empty, Heap.read]
  shape i call hcall := by cases hcall
  counts call hcall := by cases hcall

theorem Intact.start (h : s.Intact) (hout : call.pc.holds ≠ true)
    (hcounts : call.pc.counts = none) : Intact { s with calls := s.calls ++ [call] } := by
  have hold : ∀ (j : Nat) (other : Call), (s.calls ++ [call])[j]? = some other →
      other.pc.holds = true → s.calls[j]? = some other := by
    intro j other hother hholds
    rcases getElem?_concat_cases hother with hother | rfl
    · exact hother
    · exact absurd hholds hout
  constructor
  · intro j
    rw [h.guarded j]
    constructor
    · rintro ⟨other, hother, hholds⟩
      have hlt := (List.getElem?_eq_some_iff.mp hother).1
      exact ⟨other, (List.getElem?_append_left hlt).trans hother, hholds⟩
    · rintro ⟨other, hother, hholds⟩
      exact ⟨other, hold j other hother hholds, hholds⟩
  · exact h.resting
  · intro j other hother hholds
    exact h.shape j other (hold j other hother hholds) hholds
  · intro other hother x hx
    rcases List.mem_append.mp hother with hother | hother
    · exact h.counts other hother x hx
    · obtain rfl := List.mem_singleton.mp hother
      rw [hcounts] at hx
      cases hx

/-- Whoever has the manager locked, the nodes in memory are laid out. -/
theorem Intact.layout (h : s.Intact) : ∃ cells extra, Layout s.mem cells extra := by
  cases hlock : s.lock with
  | none =>
    obtain ⟨cells, hlayout, -⟩ := h.resting hlock
    exact ⟨cells, none, hlayout⟩
  | some i =>
    obtain ⟨call, hcall, hholds⟩ := (h.guarded i).mp hlock
    obtain ⟨cells, hshape⟩ := h.shape i call hcall hholds
    exact ⟨cells, _, hshape.layout⟩

/-- The step of a call leaves all others in or out of the critical section. -/
theorem holds_set (hij : j ≠ i) :
    Holds ⟨mem, lock, s.calls.set i { call with pc := pc }⟩ j ↔ s.Holds j := by
  rw [Holds, Holds]
  change (∃ other, (s.calls.set i _)[j]? = some other ∧ _) ↔ _
  rw [List.getElem?_set_ne (Ne.symm hij)]

theorem holds_set_self (hcall : s.calls[i]? = some call) :
    Holds ⟨mem, lock, s.calls.set i { call with pc := pc }⟩ i ↔ pc.holds = true := by
  have hlt := (List.getElem?_eq_some_iff.mp hcall).1
  have hself : (s.calls.set i { call with pc := pc })[i]? = some { call with pc := pc } :=
    List.getElem?_set_self hlt
  exact holds_of_getElem? (s := ⟨mem, lock, _⟩) hself

/-- The list where a call has the manager locked, or can lock it. -/
theorem Intact.shape_at (h : s.Intact) (hcall : s.calls[i]? = some call)
    (hopen : call.pc.holds = true ∨ s.lock = none) : ∃ cells, call.pc.Shape s.mem cells := by
  by_cases hholds : call.pc.holds = true
  · exact h.shape i call hcall hholds
  · obtain ⟨cells, hrest⟩ := h.resting (hopen.resolve_left hholds)
    exact ⟨cells, (CallPc.shape_iff_of_not_holds hholds).mpr hrest⟩

/-- The list behind the step of a call, when nobody has the manager locked any more. -/
theorem Intact.resting_behind (h : s.Intact) (hcall : s.calls[i]? = some call)
    (hlock : s.lockBehind i call.pc = some none)
    (hstep : CallPc.StepsTo s.mem call.tid call.pc mem pc) :
    ∃ cells, Layout mem cells none ∧ LinkedBack Thrd.last none cells := by
  cases lockBehind_lockStep hlock hstep with
  | keep howner _ =>
    have hout : call.pc.holds ≠ true := by
      rw [Ne, ← holds_of_getElem? hcall]
      exact h.guarded.not_holds howner.symm i
    obtain rfl := hstep.mem_eq hout
    exact h.resting howner.symm
  | acquire _ howner _ => cases howner
  | release hin _ hout =>
    obtain ⟨cells, hshape⟩ := h.shape_at hcall (.inl hin)
    obtain ⟨cells', hshape'⟩ := hshape.step hstep
    exact ⟨cells', (CallPc.shape_iff_of_not_holds hout).mp hshape'⟩

/-- The list at the point that a call has got to with the manager locked. -/
theorem Intact.shape_behind (h : s.Intact) (hcall : s.calls[i]? = some call)
    (hlock : s.lockBehind i call.pc = some lock)
    (hstep : CallPc.StepsTo s.mem call.tid call.pc mem pc) (hin : pc.holds = true) :
    ∃ cells, pc.Shape mem cells := by
  have hopen : call.pc.holds = true ∨ s.lock = none := by
    cases lockBehind_lockStep hlock hstep with
    | keep _ hsame => exact .inl (hsame.mp hin)
    | acquire hfree _ _ => exact .inr hfree
    | release _ _ hout => exact absurd hin hout
  obtain ⟨cells, hshape⟩ := h.shape_at hcall hopen
  exact hshape.step hstep

/-- A node that is counted is still in memory when the step does not free it. -/
theorem Intact.live_behind (h : s.Intact) (hcall : s.calls[i]? = some call)
    (hstep : CallPc.StepsTo s.mem call.tid call.pc mem pc)
    (hunwatched : s.FreesUnwatched (.call i ok)) (hother : other ∈ s.calls)
    (hx : other.pc.counts = some x) : mem.heap.read x ≠ none := by
  apply hstep.live ?_ (h.counts other hother x hx)
  intro hfreed
  apply hunwatched x ?_ other hother hx
  change s.calls[i]?.bind _ = _
  rw [hcall]
  exact hfreed

/-- A step of a call, when it does not free a node that is counted. -/
theorem Intact.callStep (h : s.Intact) (hcall : s.calls[i]? = some call)
    (hlock : s.lockBehind i call.pc = some lock)
    (hstep : CallPc.StepsTo s.mem call.tid call.pc mem pc)
    (hunwatched : s.FreesUnwatched (.call i ok)) :
    Intact ⟨mem, lock, s.calls.set i { call with pc := pc }⟩ := by
  have hheld := holds_of_getElem? hcall
  constructor
  · apply h.guarded.step (p := i)
    · rw [hheld, holds_set_self hcall]
      exact lockBehind_lockStep hlock hstep
    · exact fun j hij => holds_set hij
  · rintro rfl
    exact h.resting_behind hcall hlock hstep
  · intro j other hset hin
    rcases getElem?_set_cases hset with ⟨rfl, rfl⟩ | ⟨hij, hother⟩
    · exact h.shape_behind hcall hlock hstep hin
    -- another call has the manager locked, so this one changes nothing in memory
    · have hout : call.pc.holds ≠ true := by
        intro hself
        apply hij
        exact h.guarded.unique ⟨other, hother, hin⟩ (hheld.mpr hself)
      obtain rfl := hstep.mem_eq hout
      exact h.shape j other hother hin
  · intro other hset x hx
    rcases List.mem_or_eq_of_mem_set hset with hother | rfl
    · exact h.live_behind hcall hstep hunwatched hother hx
    · obtain ⟨cells, extra, hlayout⟩ := h.layout
      exact hstep.counts_live hlayout hx

theorem Intact.step (h : s.Intact) (hunwatched : s.FreesUnwatched a)
    (hstep : s.step a = some s') : s'.Intact := by
  cases step_cases hstep with
  | register | unregister => exact h.start nofun rfl
  | call hcall hlock hbehind => exact h.callStep hcall hlock hbehind hunwatched

theorem Intact.noneFreed (h : s.Intact) : s.NoneFreed := by
  intro call hcall x hx
  by_cases hholds : call.pc.holds = true
  · obtain ⟨i, hcall⟩ := List.getElem?_of_mem hcall
    obtain ⟨cells, hshape⟩ := h.shape i call hcall hholds
    exact hshape.accesses_live hholds hx
  · rw [CallPc.accesses_of_not_holds hholds] at hx
    exact h.counts call hcall x (Option.mem_toList.mp hx)

/-- A count that stands on the node that is freed reads its `next` pointer behind the step. -/
theorem not_noneFreed_of_watched (hstep : s.step a = some s') (hwatched : ¬ s.FreesUnwatched a) :
    ¬ s'.NoneFreed := by
  simp only [FreesUnwatched, not_forall, not_not] at hwatched
  obtain ⟨thr, hfreed, other, hother, hcounts⟩ := hwatched
  intro hnone
  cases step_cases hstep with
  | register | unregister => cases hfreed
  | @call i ok call lock mem pc hcall hlock hbehind =>
    have hpc : call.pc = .free thr := by
      apply CallPc.eq_free_of_freed
      change s.calls[i]?.bind _ = _ at hfreed
      rwa [hcall] at hfreed
    rw [hpc] at hbehind
    cases hbehind
    obtain ⟨j, hj⟩ := List.getElem?_of_mem hother
    have hij : i ≠ j := by
      rintro rfl
      obtain rfl := Option.some.inj (hcall.symm.trans hj)
      rw [hpc] at hcounts
      cases hcounts
    have hstill : other ∈ s.calls.set i { call with pc := .unregisterUnlock 0 } :=
      List.mem_of_getElem? ((List.getElem?_set_ne hij).trans hj)
    apply hnone other hstill thr ?_ read_free_self
    rw [CallPc.accesses_of_counts hcounts]
    exact List.mem_singleton_self thr

/-! ### Runs -/

/-- As long as no count stands on a node that is freed, no call accesses a freed node, and
the step that first breaks this leads to such an access. -/
theorem noneFreed_iff (hrun : Run step FreesUnwatched init w t) :
    t.NoneFreed ∧ ∀ a t', t.step a = some t' → (t'.NoneFreed ↔ t.FreesUnwatched a) := by
  have hintact : t.Intact :=
    hrun.invariant Intact.init fun _ _ _ h hunwatched hstep => h.step hunwatched hstep
  refine ⟨hintact.noneFreed, fun a t' hstep => ⟨?_, ?_⟩⟩
  · intro hnone
    by_contra hwatched
    exact not_noneFreed_of_watched hstep hwatched hnone
  · intro hunwatched
    exact (hintact.step hunwatched hstep).noneFreed

instance (s : ThreadList) (a : Action) : Decidable (s.FreesUnwatched a) :=
  inferInstanceAs (Decidable (∀ thr ∈ s.freed a, ∀ call ∈ s.calls, call.pc.counts ≠ some thr))

instance (s : ThreadList) : Decidable s.NoneFreed :=
  inferInstanceAs
    (Decidable (∀ call ∈ s.calls, ∀ x ∈ call.pc.accesses s.mem, s.mem.heap.read x ≠ none))

/-- Two threads are registered. One is unregistered up to its count, which stands on the node
of the other, and the other is about to be freed. -/
def countedRun : List Action :=
  .register 1 :: List.replicate 11 (.call 0 true) ++ .register 2 :: List.replicate 13 (.call 1 true)
    ++ .unregister 2 :: List.replicate 8 (.call 2 true)
    ++ .unregister 1 :: List.replicate 5 (.call 3 true)

theorem noneFreed_iff_countedRun : ∃ t t', Run step FreesUnwatched init countedRun t ∧
    t.step (.call 3 true) = some t' ∧ t.NoneFreed ∧ ¬ t'.NoneFreed := by
  have hexec : (exec step FreesUnwatched init countedRun).any (fun t =>
      ¬ t.FreesUnwatched (.call 3 true) ∧ (t.step (.call 3 true)).isSome) = true := by
    decide +kernel
  obtain ⟨t, hrun, hwatched, hsome⟩ := exists_run_of_exec hexec
  obtain ⟨t', hstep⟩ := Option.isSome_iff_exists.mp hsome
  obtain ⟨hnone, hnext⟩ := noneFreed_iff hrun
  refine ⟨t, t', hrun, hstep, hnone, ?_⟩
  rw [hnext _ _ hstep]
  exact hwatched

/-- The count of the call that unregisters thread 2 is about to read the node of thread 1,
which the other call has freed. -/
theorem count_follows_freed : ∃ w t, Run step (fun _ _ => True) init w t ∧ ¬ t.NoneFreed := by
  refine ⟨countedRun ++ [.call 3 true], ?_⟩
  apply exists_run_of_exec
  decide +kernel

end ThreadList

end Rblpolicyd
