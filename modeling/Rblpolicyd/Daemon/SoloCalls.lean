import Rblpolicyd.Daemon.FreedNodes
import Rblpolicyd.Daemon.Manager
import Rblpolicyd.Semantics.Until

/-!
# Calls on a thread manager, one after the other

When no two calls overlap, `thr_register` and `thr_unregister` work on the list of a
manager as on a list of thread ids: one puts an id in front, the other takes the
first occurrence out. In memory the list stays doubly linked, and the nodes that are
freed are those that were taken out.

## Main definitions

* `SoloCall`, `ListCall.run` — a call that runs from its start to its return
* `ListRun`, `runCalls` — calls one after the other, their results and the freed nodes
* `ListCall.ids`, `ListCall.result` — what a call means for a list of thread ids

## Main results

* `ListInv.register`, `ListInv.unregister` — each call on a list that is well formed
* `threadList_represents` — the list in memory behind any sequence of calls
-/

namespace Rblpolicyd

open Libc Libc.Heap Semantics

/-! ### Calls -/

/-- A call under way: the memory, its point, and the nodes it freed. -/
structure SoloCall where
  mem : MgrMemory
  pc : CallPc
  freed : List Nat

/-- The next step of the call, for the thread `tid`; `ok` is the outcome of `malloc`. -/
def SoloCall.step (tid : Nat) (ok : Bool) (c : SoloCall) : Option SoloCall :=
  (c.pc.step c.mem tid ok).map fun (mem, pc) => ⟨mem, pc, c.freed ++ c.pc.freed.toList⟩

/-- What a call that has returned leaves: the memory, its result, and the nodes it freed. -/
def SoloCall.result (c : SoloCall) : Option (MgrMemory × Int × List Nat) :=
  match c.pc with
  | .returned res => some (c.mem, res, c.freed)
  | _ => none

/-- A call of one of the functions, with the outcome of its `malloc`. -/
inductive ListCall
  | register (tid : Nat) (ok : Bool)
  | unregister (tid : Nat)
  deriving DecidableEq

namespace ListCall

/-- The call from its start to its return. -/
def run (fuel : Nat) (mem : MgrMemory) : ListCall → Option (MgrMemory × Int × List Nat)
  | .register tid ok =>
    runUntil (SoloCall.step tid ok) SoloCall.result fuel ⟨mem, .registerLock, []⟩
  | .unregister tid =>
    runUntil (SoloCall.step tid true) SoloCall.result fuel ⟨mem, .unregisterLock, []⟩

/-- The call on a list of thread ids. -/
def ids (tlist : List Nat) : ListCall → List Nat
  | .register tid ok => if ok then tid :: tlist else tlist
  | .unregister tid => tlist.erase tid

/-- Its result. -/
def result (tlist : List Nat) : ListCall → Int
  | .register _ ok => if ok then 0 else -1
  | .unregister tid => if tid ∈ tlist then 0 else -1

end ListCall

/-- The memory behind a sequence of calls, their results, and the nodes that were freed. -/
structure ListRun where
  mem : MgrMemory
  results : List Int
  freed : List Nat

/-- A manager at its creation. -/
def ListRun.initial : ListRun := ⟨⟨Heap.empty, none, 0⟩, [], []⟩

/-- One more call. -/
def ListRun.call (fuel : Nat) (s : ListRun) (call : ListCall) : Option ListRun :=
  (call.run fuel s.mem).map fun (mem, res, freed) => ⟨mem, s.results ++ [res], s.freed ++ freed⟩

/-- Calls one after the other. -/
def runCalls (fuel : Nat) (calls : List ListCall) : Option ListRun :=
  calls.foldlM (ListRun.call fuel) .initial

/-- The thread ids behind a sequence of calls. -/
def idsBehind (calls : List ListCall) : List Nat := calls.foldl ListCall.ids []

/-- The results of the calls. -/
def resultsBehind (tlist : List Nat) : List ListCall → List Int
  | [] => []
  | call :: calls => call.result tlist :: resultsBehind (call.ids tlist) calls

/-- The list of ids is that of the manager as `thrRegister` and `thrUnregister` see it. -/
theorem ids_eq_manager (mgr : ThrMgr) (tid : Nat) (ok : Bool) :
    (thrRegister ok mgr tid).2.tlist = ListCall.ids mgr.tlist (.register tid ok) ∧
      (thrUnregister mgr tid).2.tlist = ListCall.ids mgr.tlist (.unregister tid) := by
  refine ⟨by cases ok <;> rfl, ?_⟩
  by_cases hmem : tid ∈ mgr.tlist
  · rw [thrUnregister_of_mem hmem]
    rfl
  · rw [thrUnregister_of_notMem hmem, ListCall.ids, List.erase_of_not_mem hmem]

/-! ### Chains of steps -/

variable {mem mem' : MgrMemory} {cells before behind : List (Nat × Thrd)} {freed : List Nat}
  {tid x : Nat} {ok : Bool} {pc pc' : CallPc} {p : Option Nat} {thrd : Thrd} {t : SoloCall}

/-- The steps of a call, for the thread `tid`. -/
abbrev CallReaches (tid : Nat) (ok : Bool) : SoloCall → SoloCall → Prop :=
  Reaches (SoloCall.step tid ok)

/-- A step that frees nothing. -/
theorem CallReaches.step (hfreed : pc.freed = none)
    (hstep : pc.step mem tid ok = some (mem', pc'))
    (hrest : CallReaches tid ok ⟨mem', pc', freed⟩ t) :
    CallReaches tid ok ⟨mem, pc, freed⟩ t := by
  refine .head ?_ hrest
  simp [SoloCall.step, hstep, hfreed]

theorem result_stops (c : SoloCall) (r : MgrMemory × Int × List Nat) (h : c.result = some r) :
    c.step tid ok = none := by
  obtain ⟨mem, pc, freed⟩ := c
  cases pc with
  | returned res => rfl
  | _ => cases h

/-- The loop behind a registration leaves the list as it is. -/
theorem reaches_check (hlist : mem.heap.IsList p cells) (nthr : Nat) :
    CallReaches tid ok ⟨mem, .checkLast nthr p, freed⟩ ⟨mem, .registerUnlock 0, freed⟩ := by
  induction cells generalizing p nthr with
  | nil =>
    obtain rfl : p = none := hlist
    exact .step rfl rfl .refl
  | cons c rest ih =>
    obtain ⟨rfl, next, hread, hrest⟩ := hlist
    have hhop : (CallPc.checkNext (nthr + 1) c.1).step mem tid ok =
        some (mem, .checkLast (nthr + 1) next) := by
      simp [CallPc.step, hread]
    have hlast : (CallPc.checkLast nthr (some c.1)).step mem tid ok =
        some (mem, .checkNext (nthr + 1) c.1) := by
      by_cases hnthr : nthr = 0
      · subst hnthr
        rfl
      · simp [CallPc.step, hnthr, hread]
    exact .step rfl hlast (.step rfl hhop (ih hrest (nthr + 1)))

/-- The search runs over the nodes of other threads. -/
theorem reaches_search {cells' : List (Nat × Thrd)}
    (hlist : mem.heap.IsList p (cells ++ cells')) (hothers : ∀ c ∈ cells, c.2.tid ≠ tid)
    (ok : Bool) (freed : List Nat) (nthr : Nat) :
    ∃ nthr', CallReaches tid ok ⟨mem, .search nthr p, freed⟩
      ⟨mem, .search nthr' (firstAddr cells'), freed⟩ := by
  induction cells generalizing p nthr with
  | nil =>
    rw [List.nil_append] at hlist
    rw [← hlist.eq_firstAddr]
    exact ⟨nthr, .refl⟩
  | cons c rest ih =>
    obtain ⟨rfl, next, hread, hrest⟩ := hlist
    have htid := hothers c (List.mem_cons_self ..)
    have hnode : (CallPc.search nthr (some c.1)).step mem tid ok =
        some (mem, .searchNext (nthr + 1) c.1) := by
      simp [CallPc.step, hread, htid]
    have hhop : (CallPc.searchNext (nthr + 1) c.1).step mem tid ok =
        some (mem, .search (nthr + 1) next) := by
      simp [CallPc.step, hread]
    obtain ⟨nthr', hreach⟩ :=
      ih hrest (fun d hd => hothers d (List.mem_cons_of_mem _ hd)) (nthr + 1)
    exact ⟨nthr', .step rfl hnode (.step rfl hhop hreach)⟩

/-- The count behind the unlock. -/
theorem reaches_count (hlist : mem.heap.IsList p cells) (nthr : Nat) :
    CallReaches tid ok ⟨mem, .count nthr p, freed⟩ ⟨mem, .returned 0, freed⟩ := by
  induction cells generalizing p nthr with
  | nil =>
    obtain rfl : p = none := hlist
    exact .step rfl rfl .refl
  | cons c rest ih =>
    obtain ⟨rfl, next, hread, hrest⟩ := hlist
    have hhop : (CallPc.count nthr (some c.1)).step mem tid ok =
        some (mem, .count (nthr + 1) next) := by
      simp [CallPc.step, hread]
    exact .step rfl hhop (ih hrest (nthr + 1))

/-! ### The two functions -/

/-- The list of a manager while no call is under way. -/
structure ListInv (mem : MgrMemory) (cells : List (Nat × Thrd)) : Prop where
  layout : Layout mem cells none
  back : LinkedBack Thrd.last none cells

theorem initial_listInv : ListInv ListRun.initial.mem [] where
  layout :=
    { list := rfl
      live := fun x => by simp [ListRun.initial, Heap.empty, Heap.read]
      unlisted := nofun
      next := nofun }
  back := trivial

/-- A write to a node that is in memory succeeds. -/
theorem exists_setLastOf (hlive : ∀ y, p = some y → mem.heap.read y ≠ none)
    (last : Option Nat) : ∃ mem', mem.setLastOf p last = some mem' := by
  cases p with
  | none => exact ⟨mem, rfl⟩
  | some y =>
    obtain ⟨node, hnode⟩ := Option.ne_none_iff_exists'.mp (hlive y rfl)
    exact ⟨_, Option.map_eq_some_iff.mpr ⟨node, hnode, rfl⟩⟩

theorem exists_setNextOf (hlive : ∀ y, p = some y → mem.heap.read y ≠ none)
    (next : Option Nat) : ∃ mem', mem.setNextOf p next = some mem' := by
  cases p with
  | none => exact ⟨_, rfl⟩
  | some y =>
    obtain ⟨node, hnode⟩ := Option.ne_none_iff_exists'.mp (hlive y rfl)
    exact ⟨_, Option.map_eq_some_iff.mpr ⟨node, hnode, rfl⟩⟩

/-- The writes allocate nothing. -/
theorem length_setLastOf {last : Option Nat} (h : mem.setLastOf p last = some mem') :
    mem'.heap.cells.length = mem.heap.cells.length := by
  cases p with
  | none =>
    obtain rfl := Option.some.inj h
    rfl
  | some y =>
    obtain ⟨node, -, rfl⟩ := Option.map_eq_some_iff.mp h
    exact List.length_set

theorem length_setNextOf {next : Option Nat} (h : mem.setNextOf p next = some mem') :
    mem'.heap.cells.length = mem.heap.cells.length := by
  cases p with
  | none =>
    obtain rfl := Option.some.inj h
    rfl
  | some y =>
    obtain ⟨node, -, rfl⟩ := Option.map_eq_some_iff.mp h
    exact List.length_set

/-- `nthread->next = mgr->tlist`. -/
theorem Layout.exists_setNext (h : Layout mem cells (some x)) {next : Option Nat}
    (hread : mem.heap.read x = some ⟨thrd, next⟩) :
    ∃ mem', mem.setNext x mem.tlist = some mem' ∧ Layout mem' cells (some x) ∧
      mem'.tlist = mem.tlist ∧ mem'.heap.read x = some ⟨thrd, mem.tlist⟩ ∧
      mem'.heap.cells.length = mem.heap.cells.length := by
  refine ⟨_, Option.map_eq_some_iff.mpr ⟨_, hread, rfl⟩, ?_, rfl, read_write_self hread, ?_⟩
  · exact h.writeOwn hread fun y hy => h.mem_of_tlist hy
  · exact List.length_set

/-- `nthread->last = NULL`. -/
theorem Layout.exists_clearLast (h : Layout mem cells (some x))
    (hread : mem.heap.read x = some ⟨thrd, mem.tlist⟩) :
    ∃ mem', mem.setLast x none = some mem' ∧ Layout mem' cells (some x) ∧
      mem'.tlist = mem.tlist ∧ mem'.heap.read x = some ⟨⟨thrd.tid, none⟩, mem.tlist⟩ ∧
      mem'.heap.cells.length = mem.heap.cells.length := by
  refine ⟨_, Option.map_eq_some_iff.mpr ⟨_, hread, rfl⟩, ?_, rfl, read_write_self hread, ?_⟩
  · exact h.writeOwn hread fun y hy => h.mem_of_tlist hy
  · exact List.length_set

/-- `nthread->next->last = nthread`, if there is a first node. -/
theorem Layout.exists_setLastOf_tlist (h : Layout mem cells (some x))
    (hback : LinkedBack Thrd.last none cells) :
    ∃ mem' cells', mem.setLastOf mem.tlist (some x) = some mem' ∧ Layout mem' cells' (some x) ∧
      LinkedBack Thrd.last (some x) cells' ∧ cells'.map nodeKey = cells.map nodeKey ∧
      mem'.tlist = mem.tlist ∧ mem'.heap.read x = mem.heap.read x ∧
      mem'.heap.cells.length = mem.heap.cells.length := by
  obtain ⟨mem', hset⟩ :=
    exists_setLastOf (fun y hy => h.live_of_mem (h.mem_of_tlist hy)) (some x)
  have hfirst := hset
  rw [h.list.eq_firstAddr] at hfirst
  have hwhole : Layout mem ([] ++ cells) (some x) := h
  obtain ⟨cells', hlayout, hkeys, htlist, hsame, hlinked⟩ := hwhole.setLastOf hfirst
  exact ⟨mem', cells', hset, hlayout, hlinked none hback, hkeys, htlist, hsame x rfl,
    length_setLastOf hset⟩

/-- A node that only the call knows is linked in front of the list. -/
theorem reaches_link (h : Layout mem cells (some x)) (hback : LinkedBack Thrd.last none cells)
    {next : Option Nat} (hread : mem.heap.read x = some ⟨thrd, next⟩) (tid : Nat) (ok : Bool)
    (freed : List Nat) :
    ∃ mem' cells', CallReaches tid ok ⟨mem, .linkNext x, freed⟩ ⟨mem', .checkInit, freed⟩ ∧
      ListInv mem' ((x, ⟨thrd.tid, none⟩) :: cells') ∧ cells'.map nodeKey = cells.map nodeKey ∧
      mem'.heap.cells.length = mem.heap.cells.length := by
  obtain ⟨mem₁, hset₁, h₁, htlist₁, hread₁, hlength₁⟩ := h.exists_setNext hread
  rw [← htlist₁] at hread₁
  obtain ⟨mem₂, cells', hset₂, h₂, hback₂, hkeys, htlist₂, hread₂, hlength₂⟩ :=
    h₁.exists_setLastOf_tlist hback
  have hread₂' : mem₂.heap.read x = some ⟨thrd, mem₂.tlist⟩ := by rw [hread₂, hread₁, htlist₂]
  obtain ⟨mem₃, hset₃, h₃, htlist₃, hread₃, hlength₃⟩ := h₂.exists_clearLast hread₂'
  rw [← htlist₃] at hread₃
  have hnext : (CallPc.linkNext x).step mem tid ok = some (mem₁, .linkLast x) := by
    simp [CallPc.step, hset₁]
  have hlast : (CallPc.linkLast x).step mem₁ tid ok = some (mem₂, .clearLast x) := by
    simp [CallPc.step, hread₁, hset₂]
  have hclear : (CallPc.clearLast x).step mem₂ tid ok = some (mem₃, .linkHead x) := by
    simp [CallPc.step, hset₃]
  refine ⟨{ mem₃ with tlist := some x }, cells', ?_, ⟨h₃.linkHead hread₃, rfl, hback₂⟩, hkeys, ?_⟩
  · exact .step rfl hnext (.step rfl hlast (.step rfl hclear (.step rfl rfl .refl)))
  · rw [← hlength₁, ← hlength₂, ← hlength₃]

/-- `thr_register`, when `malloc` succeeds, puts a new node in front of the list. -/
theorem ListInv.register (h : ListInv mem cells) (tid : Nat) :
    ∃ mem' cells', CallReaches tid true ⟨mem, .registerLock, []⟩ ⟨mem', .returned 0, []⟩ ∧
      ListInv mem' ((mem.heap.cells.length, ⟨tid, none⟩) :: cells') ∧
      cells'.map nodeKey = cells.map nodeKey ∧
      mem'.heap.cells.length = mem.heap.cells.length + 1 := by
  have hlayout := h.layout.alloc ⟨tid, none⟩ (mem.nthreads + 1)
  obtain ⟨mem', cells', hlink, hinv, hkeys, hlength⟩ :=
    reaches_link hlayout h.back read_alloc_self tid true []
  have hreturn : CallReaches tid true ⟨mem', .registerUnlock 0, []⟩ ⟨mem', .returned 0, []⟩ :=
    .step rfl rfl .refl
  have hcheck : CallReaches tid true ⟨mem', .checkInit, []⟩ ⟨mem', .returned 0, []⟩ :=
    .step rfl rfl ((reaches_check hinv.layout.list 0).trans hreturn)
  refine ⟨mem', cells', .step rfl rfl (.step rfl rfl (hlink.trans hcheck)), hinv, hkeys, ?_⟩
  rw [hlength]
  exact List.length_append

/-- When `malloc` fails it leaves the list and the nodes alone. -/
theorem reaches_register_fails (mem : MgrMemory) (tid : Nat) :
    CallReaches tid false ⟨mem, .registerLock, []⟩
      ⟨{ mem with nthreads := mem.nthreads + 1 }, .returned (-1), []⟩ :=
  .step rfl rfl (.step rfl rfl (.step rfl rfl .refl))

/-- `thr_unregister` changes nothing when the thread is not in the list. -/
theorem ListInv.unregister_absent (h : ListInv mem cells)
    (habsent : tid ∉ cells.map fun c => c.2.tid) :
    CallReaches tid ok ⟨mem, .unregisterLock, []⟩ ⟨mem, .returned (-1), []⟩ := by
  have hothers : ∀ c ∈ cells, c.2.tid ≠ tid := by
    rintro c hc rfl
    exact habsent (List.mem_map_of_mem hc)
  have hlist : mem.heap.IsList mem.tlist (cells ++ []) := by
    rw [List.append_nil]
    exact h.layout.list
  obtain ⟨nthr, hsearch⟩ := reaches_search hlist hothers ok [] 0
  have hend : CallReaches tid ok ⟨mem, .search nthr none, []⟩ ⟨mem, .returned (-1), []⟩ :=
    .step rfl rfl (.step rfl rfl .refl)
  exact .step rfl rfl (.step rfl rfl (hsearch.trans hend))

/-- A node is taken out of the list and freed, and its neighbours are linked. -/
theorem reaches_unlink (h : ListInv mem (before ++ (x, thrd) :: behind)) (tid : Nat) (ok : Bool) :
    ∃ mem' behind', CallReaches tid ok ⟨mem, .unlinkNext x, []⟩ ⟨mem', .unregisterUnlock 0, [x]⟩ ∧
      ListInv mem' (before ++ behind') ∧ behind'.map nodeKey = behind.map nodeKey ∧
      mem'.heap.cells.length = mem.heap.cells.length := by
  have hread := h.layout.list.next_eq
  obtain ⟨hbefore, hlast, hbehind⟩ := linkedBack_append.mp h.back
  have hlive : ∀ y, thrd.last = some y → mem.heap.read y ≠ none := by
    intro y hy
    rw [hlast] at hy
    apply h.layout.live_of_mem
    rw [List.map_append]
    exact List.mem_append_left _ (mem_of_lastAddr hy)
  obtain ⟨mem₁, hset₁⟩ := exists_setNextOf hlive (firstAddr behind)
  obtain ⟨h₁, hread₁⟩ := h.layout.unlink hlast hset₁
  have hlive₁ : ∀ y, firstAddr behind = some y → mem₁.heap.read y ≠ none := by
    intro y hy
    apply h₁.live_of_mem
    rw [List.map_append]
    exact List.mem_append_right _ (mem_of_firstAddr hy)
  obtain ⟨mem₂, hset₂⟩ := exists_setLastOf hlive₁ thrd.last
  obtain ⟨behind', h₂, hkeys, -, -, hback₂⟩ := h₁.setLastOf hset₂
  have hnext : (CallPc.unlinkNext x).step mem tid ok = some (mem₁, .unlinkLast x) := by
    simp [CallPc.step, hread, hset₁]
  have hprev : (CallPc.unlinkLast x).step mem₁ tid ok = some (mem₂, .free x) := by
    simp [CallPc.step, hread₁, hset₂]
  have hfree : CallReaches tid ok ⟨mem₂, .free x, []⟩
      ⟨{ mem₂ with heap := mem₂.heap.free x, nthreads := mem₂.nthreads - 1 },
        .unregisterUnlock 0, [x]⟩ :=
    .single rfl
  refine ⟨_, behind', .step rfl hnext (.step rfl hprev hfree), ⟨h₂.free _, ?_⟩, hkeys, ?_⟩
  · refine linkedBack_append.mpr ⟨hbefore, ?_⟩
    rw [← hlast]
    exact hback₂ _ hbehind
  · rw [← length_setNextOf hset₁, ← length_setLastOf hset₂]
    exact List.length_set

/-- Otherwise it takes the first node of the thread out of the list and frees it. -/
theorem ListInv.unregister (h : ListInv mem (before ++ (x, thrd) :: behind))
    (hbefore : ∀ c ∈ before, c.2.tid ≠ thrd.tid) (ok : Bool) :
    ∃ mem' behind', CallReaches thrd.tid ok ⟨mem, .unregisterLock, []⟩
        ⟨mem', .returned 0, [x]⟩ ∧
      ListInv mem' (before ++ behind') ∧ behind'.map nodeKey = behind.map nodeKey ∧
      mem'.heap.cells.length = mem.heap.cells.length := by
  obtain ⟨nthr, hsearch⟩ := reaches_search h.layout.list hbefore ok [] 0
  have hfound : (CallPc.search nthr (some x)).step mem thrd.tid ok = some (mem, .unlinkNext x) := by
    simp [CallPc.step, h.layout.list.next_eq]
  obtain ⟨mem', behind', hunlink, hinv, hkeys, hlength⟩ := reaches_unlink h thrd.tid ok
  have hcount : CallReaches thrd.tid ok ⟨mem', .unregisterUnlock 0, [x]⟩
      ⟨mem', .returned 0, [x]⟩ :=
    .step rfl rfl (.step rfl rfl (reaches_count hinv.layout.list 0))
  have hfound' : CallReaches thrd.tid ok ⟨mem, .search nthr (some x), []⟩
      ⟨mem, .unlinkNext x, []⟩ :=
    .step rfl hfound .refl
  have hbegin : CallReaches thrd.tid ok ⟨mem, .unregisterLock, []⟩ ⟨mem, .unlinkNext x, []⟩ :=
    .step rfl rfl (.step rfl rfl (hsearch.trans hfound'))
  exact ⟨mem', behind', hbegin.trans (hunlink.trans hcount), hinv, hkeys, hlength⟩

/-! ### Sequences of calls -/

/-- What a sequence of calls leaves: a list that is well formed, with the ids and the results
of the calls on ids, and freed nodes that are those not in the list any more. -/
structure Represents (calls : List ListCall) (s : ListRun) (cells : List (Nat × Thrd)) : Prop where
  inv : ListInv s.mem cells
  ids : cells.map (fun c => c.2.tid) = idsBehind calls
  nodup : s.freed.Nodup
  freed : ∀ x, x ∈ s.freed ↔ x < s.mem.heap.cells.length ∧ x ∉ cells.map Prod.fst

theorem ids_of_keys {cells' : List (Nat × Thrd)} (h : cells'.map nodeKey = cells.map nodeKey) :
    cells'.map (fun c => c.2.tid) = cells.map (fun c => c.2.tid) := by
  have hsnd := congrArg (List.map Prod.snd) h
  rwa [List.map_map, List.map_map] at hsnd

theorem addrs_of_keys {cells' : List (Nat × Thrd)} (h : cells'.map nodeKey = cells.map nodeKey) :
    cells'.map Prod.fst = cells.map Prod.fst := by
  have hfst := congrArg (List.map Prod.fst) h
  rwa [List.map_map, List.map_map] at hfst

theorem idsBehind_concat (calls : List ListCall) (call : ListCall) :
    idsBehind (calls ++ [call]) = call.ids (idsBehind calls) := by
  rw [idsBehind, List.foldl_append]
  rfl

theorem resultsBehind_concat (tlist : List Nat) (calls : List ListCall) (call : ListCall) :
    resultsBehind tlist (calls ++ [call]) =
      resultsBehind tlist calls ++ [call.result (calls.foldl ListCall.ids tlist)] := by
  induction calls generalizing tlist with
  | nil => rfl
  | cons c calls ih => rw [List.cons_append, resultsBehind, ih, resultsBehind]; rfl

/-- A chain of steps to the return is found by running the call. -/
theorem run_of_reaches {pc : CallPc} {res : Int}
    (h : CallReaches tid ok ⟨mem, pc, []⟩ ⟨mem', .returned res, freed⟩) :
    ∃ n, ∀ fuel ≥ n, runUntil (SoloCall.step tid ok) SoloCall.result fuel ⟨mem, pc, []⟩ =
      some (mem', res, freed) :=
  runUntil_of_reaches result_stops h rfl

variable {calls : List ListCall} {s : ListRun}

/-- A successful registration. -/
theorem Represents.register (h : Represents calls s cells) (tid : Nat) :
    ∃ mem' cells', (∃ n, ∀ fuel ≥ n,
        (ListCall.register tid true).run fuel s.mem = some (mem', 0, [])) ∧
      ∀ results, Represents (calls ++ [.register tid true]) ⟨mem', results, s.freed⟩ cells' := by
  obtain ⟨mem', cells', hreach, hinv, hkeys, hlength⟩ := h.inv.register tid
  refine ⟨mem', _, run_of_reaches hreach, fun results => ⟨hinv, ?_, h.nodup, ?_⟩⟩
  · rw [idsBehind_concat, ← h.ids, List.map_cons, ids_of_keys hkeys]
    rfl
  · intro x
    rw [h.freed x, hlength, List.map_cons, addrs_of_keys hkeys, List.mem_cons, not_or]
    constructor
    · rintro ⟨hlt, hout⟩
      exact ⟨Nat.lt_succ_of_lt hlt, Nat.ne_of_lt hlt, hout⟩
    · rintro ⟨hlt, hne, hout⟩
      exact ⟨Nat.lt_of_le_of_ne (Nat.le_of_lt_succ hlt) hne, hout⟩

/-- A registration without memory. -/
theorem Represents.register_fails (h : Represents calls s cells) (tid : Nat) (results : List Int) :
    Represents (calls ++ [.register tid false])
      ⟨{ s.mem with nthreads := s.mem.nthreads + 1 }, results, s.freed⟩ cells where
  inv := ⟨⟨h.inv.layout.list, h.inv.layout.live, nofun, nofun⟩, h.inv.back⟩
  ids := by
    rw [idsBehind_concat, ← h.ids]
    rfl
  nodup := h.nodup
  freed := h.freed

/-- The removal of a thread that is not in the list. -/
theorem Represents.unregister_absent (h : Represents calls s cells)
    (habsent : tid ∉ idsBehind calls) (results : List Int) :
    Represents (calls ++ [.unregister tid]) ⟨s.mem, results, s.freed⟩ cells where
  inv := h.inv
  ids := by
    rw [idsBehind_concat, h.ids, ListCall.ids, List.erase_of_not_mem habsent]
  nodup := h.nodup
  freed := h.freed

/-- The first cell of a thread in the list. -/
theorem exists_first_cell (htid : tid ∈ cells.map fun c => c.2.tid) :
    ∃ before x thrd behind, cells = before ++ (x, thrd) :: behind ∧ thrd.tid = tid ∧
      ∀ c ∈ before, c.2.tid ≠ tid := by
  induction cells with
  | nil => cases htid
  | cons c cells ih =>
    by_cases hc : c.2.tid = tid
    · exact ⟨[], c.1, c.2, cells, rfl, hc, by simp⟩
    · have hrest : tid ∈ cells.map fun c => c.2.tid := by
        rcases List.mem_cons.mp htid with heq | hmem
        · exact absurd heq.symm hc
        · exact hmem
      obtain ⟨before, x, thrd, behind, rfl, hthrd, hbefore⟩ := ih hrest
      refine ⟨c :: before, x, thrd, behind, rfl, hthrd, fun d hd => ?_⟩
      rcases List.mem_cons.mp hd with rfl | hd
      · exact hc
      · exact hbefore d hd

/-- The removal of a thread of the list: its first node is freed. -/
theorem Represents.unregister (h : Represents calls s cells) (htid : tid ∈ idsBehind calls) :
    ∃ mem' x cells', (∃ n, ∀ fuel ≥ n,
        (ListCall.unregister tid).run fuel s.mem = some (mem', 0, [x])) ∧
      ∀ results,
        Represents (calls ++ [.unregister tid]) ⟨mem', results, s.freed ++ [x]⟩ cells' := by
  rw [← h.ids] at htid
  obtain ⟨before, x, thrd, behind, rfl, rfl, hbefore⟩ := exists_first_cell htid
  obtain ⟨mem', behind', hreach, hinv, hkeys, hlength⟩ := h.inv.unregister hbefore true
  obtain ⟨hout, hout'⟩ := not_mem_of_nodup h.inv.layout.list.nodup
  refine ⟨mem', x, before ++ behind', run_of_reaches hreach, fun results => ⟨hinv, ?_, ?_, ?_⟩⟩
  · have hfirst : thrd.tid ∉ before.map fun c => c.2.tid := by
      intro hmem
      obtain ⟨c, hc, heq⟩ := List.mem_map.mp hmem
      exact hbefore c hc heq
    rw [idsBehind_concat, ← h.ids, ListCall.ids, List.map_append, List.map_append, List.map_cons,
      List.erase_append_right _ hfirst, List.erase_cons_head, ids_of_keys hkeys]
  · have hlisted : x ∉ s.freed := fun hmem => ((h.freed x).mp hmem).2 (by simp)
    rw [← List.concat_eq_append]
    exact h.nodup.concat hlisted
  · intro y
    have hlt : x < s.mem.heap.cells.length :=
      h.inv.layout.list.lt_length (c := (x, thrd)) (by simp)
    rw [List.mem_append, h.freed y, hlength, List.mem_singleton, List.map_append,
      List.map_append, addrs_of_keys hkeys, List.map_cons]
    simp only [List.mem_append, List.mem_cons, not_or]
    constructor
    · rintro (⟨hy, hbefore, -, hbehind⟩ | rfl)
      · exact ⟨hy, hbefore, hbehind⟩
      · exact ⟨hlt, hout, hout'⟩
    · rintro ⟨hy, hbefore, hbehind⟩
      by_cases hyx : y = x
      · exact Or.inr hyx
      · exact Or.inl ⟨hy, hbefore, hyx, hbehind⟩

/-- One more call, whichever it is. -/
theorem Represents.call (h : Represents calls s cells) (call : ListCall) :
    ∃ mem' freed' cells', (∃ n, ∀ fuel ≥ n,
        call.run fuel s.mem = some (mem', call.result (idsBehind calls), freed')) ∧
      ∀ results,
        Represents (calls ++ [call]) ⟨mem', results, s.freed ++ freed'⟩ cells' := by
  cases call with
  | register tid ok =>
    cases ok with
    | true =>
      obtain ⟨mem', cells', hrun, hrep⟩ := h.register tid
      refine ⟨mem', [], cells', hrun, fun results => ?_⟩
      rw [List.append_nil]
      exact hrep results
    | false =>
      refine ⟨_, [], cells, run_of_reaches (reaches_register_fails s.mem tid), fun results => ?_⟩
      rw [List.append_nil]
      exact h.register_fails tid results
  | unregister tid =>
    by_cases htid : tid ∈ idsBehind calls
    · obtain ⟨mem', x, cells', hrun, hrep⟩ := h.unregister htid
      rw [ListCall.result, if_pos htid]
      exact ⟨mem', [x], cells', hrun, hrep⟩
    · have habsent : tid ∉ cells.map fun c => c.2.tid := by rwa [h.ids]
      rw [ListCall.result, if_neg htid]
      refine ⟨s.mem, [], cells, run_of_reaches (h.inv.unregister_absent habsent),
        fun results => ?_⟩
      rw [List.append_nil]
      exact h.unregister_absent htid results

/-- Enough fuel for a sequence of calls and one more. -/
theorem runCalls_concat {call : ListCall} {r : MgrMemory × Int × List Nat}
    (hcalls : ∃ n, ∀ fuel ≥ n, runCalls fuel calls = some s)
    (hcall : ∃ n, ∀ fuel ≥ n, call.run fuel s.mem = some r) :
    ∃ n, ∀ fuel ≥ n, runCalls fuel (calls ++ [call]) =
      some ⟨r.1, s.results ++ [r.2.1], s.freed ++ r.2.2⟩ := by
  obtain ⟨n, hn⟩ := hcalls
  obtain ⟨m, hm⟩ := hcall
  refine ⟨max n m, fun fuel hfuel => ?_⟩
  have hfirst := hn fuel (Nat.le_trans (Nat.le_max_left n m) hfuel)
  rw [runCalls] at hfirst
  rw [runCalls, List.foldlM_append, hfirst]
  change (ListRun.call fuel s call).bind _ = _
  rw [ListRun.call, hm fuel (Nat.le_trans (Nat.le_max_right n m) hfuel)]
  rfl

theorem exists_represents (calls : List ListCall) :
    ∃ s cells, (∃ n, ∀ fuel ≥ n, runCalls fuel calls = some s) ∧ Represents calls s cells ∧
      s.results = resultsBehind [] calls := by
  induction calls using List.reverseRecOn with
  | nil =>
    refine ⟨.initial, [], ⟨0, fun _ _ => rfl⟩, ⟨initial_listInv, rfl, List.nodup_nil, ?_⟩, rfl⟩
    intro x
    simp [ListRun.initial, Heap.empty]
  | append_singleton calls call ih =>
    obtain ⟨s, cells, hruns, hrep, hresults⟩ := ih
    obtain ⟨mem', freed', cells', hrun, hrep'⟩ := hrep.call call
    refine ⟨_, cells', runCalls_concat hruns hrun, hrep' _, ?_⟩
    rw [resultsBehind_concat, ← hresults]
    rfl

/-- Behind every sequence of calls, with any thread ids and any outcomes of `malloc`, the
manager has a null-terminated list that is linked back at every node. Its ids and the results
of the calls are those of the calls on a list of ids, and the nodes freed, each of them once,
are those that were allocated and are not in the list any more. A call that finds no node,
or gets no memory, changes neither the nodes nor the list. -/
theorem threadList_represents (calls : List ListCall) :
    ∃ s cells, (∃ n, ∀ fuel ≥ n, runCalls fuel calls = some s) ∧
      s.mem.heap.IsList s.mem.tlist cells ∧ LinkedBack Thrd.last none cells ∧
      cells.map (fun c => c.2.tid) = idsBehind calls ∧ s.results = resultsBehind [] calls ∧
      s.freed.Nodup ∧
      (∀ x, x ∈ s.freed ↔ x < s.mem.heap.cells.length ∧ x ∉ cells.map Prod.fst) ∧
      (∀ tid, tid ∉ idsBehind calls → ∃ n, ∀ fuel ≥ n,
        (ListCall.unregister tid).run fuel s.mem = some (s.mem, -1, [])) ∧
      ∀ tid, ∃ n, ∀ fuel ≥ n, (ListCall.register tid false).run fuel s.mem =
        some ({ s.mem with nthreads := s.mem.nthreads + 1 }, -1, []) := by
  obtain ⟨s, cells, hruns, hrep, hresults⟩ := exists_represents calls
  refine ⟨s, cells, hruns, hrep.inv.layout.list, hrep.inv.back, hrep.ids, hresults, hrep.nodup,
    hrep.freed, fun tid habsent => ?_, fun tid => ?_⟩
  · rw [← hrep.ids] at habsent
    exact run_of_reaches (hrep.inv.unregister_absent habsent)
  · exact run_of_reaches (reaches_register_fails s.mem tid)

end Rblpolicyd
