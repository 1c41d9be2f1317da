import Rblpolicyd.Libc.Heap
import Rblpolicyd.Semantics.Mutex
import Rblpolicyd.Semantics.Run

/-!
# The list of a thread manager in memory

A manager keeps its threads in a doubly linked list. `thr_register` puts a node in
front, with the manager locked by its caller, and `thr_unregister` locks the manager,
searches a node, unlinks and frees it, unlocks the manager, and then counts the list
once more. Any number of calls of the two run at the same time, and every hop of a
loop and every pointer that is written is a step.

## Main definitions

* `Thrd`, `MgrMemory` — a node, and the memory of a manager
* `CallPc`, `CallPc.step` — the points of the two functions, and the step behind each
* `CallPc.StepsTo` — what a step can be
* `CallPc.accesses` — the nodes a step reads or writes
* `ThreadList`, `ThreadList.step` — a manager with its calls
-/

namespace Rblpolicyd

open Libc Semantics

/-- `thrd_t`, without its time; the `next` pointer is in the list node. -/
structure Thrd where
  tid : Nat
  last : Option Nat
  deriving DecidableEq

/-- The nodes in memory, and the fields `tlist` and `nthreads` of the manager. -/
structure MgrMemory where
  heap : Heap (Node Thrd)
  tlist : Option Nat
  nthreads : UInt32
  deriving DecidableEq

/-- The points of `thr_register`, between the lock and the unlock of its caller, and of
`thr_unregister`, with the locals they need. -/
inductive CallPc
  | registerLock
  | malloc
  | linkNext (nthread : Nat)
  | linkLast (nthread : Nat)
  | clearLast (nthread : Nat)
  | linkHead (nthread : Nat)
  | checkInit
  | checkLast (nthr : Nat) (nthread : Option Nat)
  | checkNext (nthr : Nat) (nthread : Nat)
  | registerUnlock (res : Int)
  | unregisterLock
  | searchInit
  | search (nthr : Nat) (thr : Option Nat)
  | searchNext (nthr : Nat) (thr : Nat)
  | unlinkNext (thr : Nat)
  | unlinkLast (thr : Nat)
  | free (thr : Nat)
  | unregisterUnlock (res : Int)
  | countInit
  | count (nthr : Nat) (thr : Option Nat)
  | returned (res : Int)
  deriving DecidableEq

namespace MgrMemory

/-- `node->next = next`. A node that was freed has no fields to write. -/
def setNext (mem : MgrMemory) (node : Nat) (next : Option Nat) : Option MgrMemory :=
  (mem.heap.read node).map fun old =>
    { mem with heap := mem.heap.write node ⟨old.val, next⟩ }

/-- `node->last = last`. -/
def setLast (mem : MgrMemory) (node : Nat) (last : Option Nat) : Option MgrMemory :=
  (mem.heap.read node).map fun old =>
    { mem with heap := mem.heap.write node ⟨{ old.val with last := last }, old.next⟩ }

/-- `node->last = last`, unless the pointer is null. -/
def setLastOf (mem : MgrMemory) (node : Option Nat) (last : Option Nat) : Option MgrMemory :=
  match node with
  | none => some mem
  | some node => mem.setLast node last

/-- The pointer to a node is in its predecessor, or in the manager. -/
def setNextOf (mem : MgrMemory) (last : Option Nat) (next : Option Nat) : Option MgrMemory :=
  match last with
  | none => some { mem with tlist := next }
  | some last => mem.setNext last next

end MgrMemory

/-- The step of a call for the thread `tid`; `ok` is the outcome of `malloc`. -/
def CallPc.step (mem : MgrMemory) (tid : Nat) (ok : Bool) : CallPc → Option (MgrMemory × CallPc)
  | .registerLock => some (mem, .malloc)
  | .malloc =>
    let mem := { mem with nthreads := mem.nthreads + 1 }
    if ok then
      let (nthread, heap) := mem.heap.alloc ⟨⟨tid, none⟩, none⟩
      some ({ mem with heap := heap }, .linkNext nthread)
    else some (mem, .registerUnlock (-1))
  -- nthread->next = mgr->tlist
  | .linkNext nthread => (mem.setNext nthread mem.tlist).map fun mem => (mem, .linkLast nthread)
  -- if (nthread->next) nthread->next->last = nthread
  | .linkLast nthread =>
    (mem.heap.read nthread).bind fun node =>
      (mem.setLastOf node.next (some nthread)).map fun mem => (mem, .clearLast nthread)
  -- nthread->last = NULL
  | .clearLast nthread => (mem.setLast nthread none).map fun mem => (mem, .linkHead nthread)
  -- mgr->tlist = nthread
  | .linkHead nthread => some ({ mem with tlist := some nthread }, .checkInit)
  | .checkInit => some (mem, .checkLast 0 mem.tlist)
  | .checkLast _ none => some (mem, .registerUnlock 0)
  -- a last pointer that is null behind the first node is logged
  | .checkLast nthr (some nthread) =>
    if nthr = 0 then some (mem, .checkNext 1 nthread)
    else (mem.heap.read nthread).map fun _ => (mem, .checkNext (nthr + 1) nthread)
  | .checkNext nthr nthread =>
    (mem.heap.read nthread).map fun node => (mem, .checkLast nthr node.next)
  | .registerUnlock res => some (mem, .returned res)
  | .unregisterLock => some (mem, .searchInit)
  | .searchInit => some (mem, .search 0 mem.tlist)
  -- the search that fails is logged
  | .search _ none => some (mem, .unregisterUnlock (-1))
  | .search nthr (some thr) =>
    (mem.heap.read thr).map fun node =>
      (mem, if node.val.tid = tid then .unlinkNext thr else .searchNext (nthr + 1) thr)
  | .searchNext nthr thr => (mem.heap.read thr).map fun node => (mem, .search nthr node.next)
  -- if (thr->last) thr->last->next = thr->next else mgr->tlist = thr->next
  | .unlinkNext thr =>
    (mem.heap.read thr).bind fun node =>
      (mem.setNextOf node.val.last node.next).map fun mem => (mem, .unlinkLast thr)
  -- if (thr->next) thr->next->last = thr->last
  | .unlinkLast thr =>
    (mem.heap.read thr).bind fun node =>
      (mem.setLastOf node.next node.val.last).map fun mem => (mem, .free thr)
  | .free thr =>
    some
      ({ mem with heap := mem.heap.free thr, nthreads := mem.nthreads - 1 }, .unregisterUnlock 0)
  | .unregisterUnlock res => some (mem, if res = 0 then .countInit else .returned res)
  -- the manager is not locked any more
  | .countInit => some (mem, .count 0 mem.tlist)
  | .count _ none => some (mem, .returned 0)
  | .count nthr (some thr) =>
    (mem.heap.read thr).map fun node => (mem, .count (nthr + 1) node.next)
  | .returned _ => none

/-- The nodes of which the step reads or writes `tid`, `next` or `last`. -/
def CallPc.accesses (mem : MgrMemory) : CallPc → List Nat
  | .linkNext node | .clearLast node | .checkNext _ node | .searchNext _ node => [node]
  | .search _ thr | .count _ thr => thr.toList
  | .checkLast nthr nthread => if nthr = 0 then [] else nthread.toList
  | .linkLast node | .unlinkLast node =>
    node :: ((mem.heap.read node).bind fun found => found.next).toList
  | .unlinkNext thr => thr :: ((mem.heap.read thr).bind fun found => found.val.last).toList
  | _ => []

/-- The call has the manager locked. -/
def CallPc.holds : CallPc → Bool
  | .registerLock | .unregisterLock | .countInit | .count _ _ | .returned _ => false
  | _ => true

/-- What a step of a call is a step of. -/
inductive CallPc.StepsTo (mem : MgrMemory) (tid : Nat) : CallPc → MgrMemory → CallPc → Prop
  | registerLock : StepsTo mem tid .registerLock mem .malloc
  | malloc : StepsTo mem tid .malloc
      ⟨(mem.heap.alloc ⟨⟨tid, none⟩, none⟩).2, mem.tlist, mem.nthreads + 1⟩
      (.linkNext (mem.heap.alloc ⟨⟨tid, none⟩, none⟩).1)
  | mallocFails : StepsTo mem tid .malloc { mem with nthreads := mem.nthreads + 1 }
      (.registerUnlock (-1))
  | linkNext {nthread : Nat} {mem' : MgrMemory}
      (hset : mem.setNext nthread mem.tlist = some mem') :
      StepsTo mem tid (.linkNext nthread) mem' (.linkLast nthread)
  | linkLast {nthread : Nat} {node : Node Thrd} {mem' : MgrMemory}
      (hnode : mem.heap.read nthread = some node)
      (hset : mem.setLastOf node.next (some nthread) = some mem') :
      StepsTo mem tid (.linkLast nthread) mem' (.clearLast nthread)
  | clearLast {nthread : Nat} {mem' : MgrMemory} (hset : mem.setLast nthread none = some mem') :
      StepsTo mem tid (.clearLast nthread) mem' (.linkHead nthread)
  | linkHead {nthread : Nat} :
      StepsTo mem tid (.linkHead nthread) { mem with tlist := some nthread } .checkInit
  | checkInit : StepsTo mem tid .checkInit mem (.checkLast 0 mem.tlist)
  | checkEnd {nthr : Nat} : StepsTo mem tid (.checkLast nthr none) mem (.registerUnlock 0)
  | checkLast {nthr nthread : Nat} :
      StepsTo mem tid (.checkLast nthr (some nthread)) mem (.checkNext (nthr + 1) nthread)
  | checkNext {nthr nthread : Nat} {node : Node Thrd}
      (hnode : mem.heap.read nthread = some node) :
      StepsTo mem tid (.checkNext nthr nthread) mem (.checkLast nthr node.next)
  | registerUnlock {res : Int} : StepsTo mem tid (.registerUnlock res) mem (.returned res)
  | unregisterLock : StepsTo mem tid .unregisterLock mem .searchInit
  | searchInit : StepsTo mem tid .searchInit mem (.search 0 mem.tlist)
  | searchEnd {nthr : Nat} : StepsTo mem tid (.search nthr none) mem (.unregisterUnlock (-1))
  | found {nthr thr : Nat} {node : Node Thrd} (hnode : mem.heap.read thr = some node)
      (htid : node.val.tid = tid) :
      StepsTo mem tid (.search nthr (some thr)) mem (.unlinkNext thr)
  | search {nthr thr : Nat} {node : Node Thrd} (hnode : mem.heap.read thr = some node)
      (htid : node.val.tid ≠ tid) :
      StepsTo mem tid (.search nthr (some thr)) mem (.searchNext (nthr + 1) thr)
  | searchNext {nthr thr : Nat} {node : Node Thrd} (hnode : mem.heap.read thr = some node) :
      StepsTo mem tid (.searchNext nthr thr) mem (.search nthr node.next)
  | unlinkNext {thr : Nat} {node : Node Thrd} {mem' : MgrMemory}
      (hnode : mem.heap.read thr = some node)
      (hset : mem.setNextOf node.val.last node.next = some mem') :
      StepsTo mem tid (.unlinkNext thr) mem' (.unlinkLast thr)
  | unlinkLast {thr : Nat} {node : Node Thrd} {mem' : MgrMemory}
      (hnode : mem.heap.read thr = some node)
      (hset : mem.setLastOf node.next node.val.last = some mem') :
      StepsTo mem tid (.unlinkLast thr) mem' (.free thr)
  | free {thr : Nat} : StepsTo mem tid (.free thr)
      { mem with heap := mem.heap.free thr, nthreads := mem.nthreads - 1 } (.unregisterUnlock 0)
  | unregistered : StepsTo mem tid (.unregisterUnlock 0) mem .countInit
  | notFound {res : Int} (hres : res ≠ 0) :
      StepsTo mem tid (.unregisterUnlock res) mem (.returned res)
  | countInit : StepsTo mem tid .countInit mem (.count 0 mem.tlist)
  | countEnd {nthr : Nat} : StepsTo mem tid (.count nthr none) mem (.returned 0)
  | count {nthr thr : Nat} {node : Node Thrd} (hnode : mem.heap.read thr = some node) :
      StepsTo mem tid (.count nthr (some thr)) mem (.count (nthr + 1) node.next)

theorem CallPc.step_cases {mem mem' : MgrMemory} {tid : Nat} {ok : Bool} {pc pc' : CallPc}
    (h : pc.step mem tid ok = some (mem', pc')) : StepsTo mem tid pc mem' pc' := by
  cases pc with
  | registerLock | linkHead | checkInit | registerUnlock | unregisterLock | searchInit | free
  | countInit =>
    obtain ⟨rfl, rfl⟩ := Prod.mk.inj (Option.some.inj h)
    constructor
  | malloc =>
    cases ok with
    | true =>
      obtain ⟨rfl, rfl⟩ := Prod.mk.inj (Option.some.inj h)
      exact .malloc
    | false =>
      obtain ⟨rfl, rfl⟩ := Prod.mk.inj (Option.some.inj h)
      exact .mallocFails
  | linkNext | clearLast =>
    obtain ⟨_, hset, heq⟩ := Option.map_eq_some_iff.mp h
    obtain ⟨rfl, rfl⟩ := Prod.mk.inj heq
    constructor
    exact hset
  | linkLast | unlinkNext | unlinkLast =>
    obtain ⟨node, hnode, h⟩ := Option.bind_eq_some_iff.mp h
    obtain ⟨_, hset, heq⟩ := Option.map_eq_some_iff.mp h
    obtain ⟨rfl, rfl⟩ := Prod.mk.inj heq
    constructor
    · exact hnode
    · exact hset
  | checkNext | searchNext =>
    obtain ⟨node, hnode, heq⟩ := Option.map_eq_some_iff.mp h
    obtain ⟨rfl, rfl⟩ := Prod.mk.inj heq
    constructor
    exact hnode
  | unregisterUnlock res =>
    obtain ⟨rfl, rfl⟩ := Prod.mk.inj (Option.some.inj h)
    by_cases hres : res = 0
    · subst hres
      exact .unregistered
    · rw [if_neg hres]
      exact .notFound hres
  | checkLast nthr thr =>
    cases thr with
    | none =>
      obtain ⟨rfl, rfl⟩ := Prod.mk.inj (Option.some.inj h)
      exact .checkEnd
    | some thr =>
      rcases ite_eq_iff.mp h with ⟨hnthr, heq⟩ | ⟨-, hmap⟩
      · subst hnthr
        obtain ⟨rfl, rfl⟩ := Prod.mk.inj (Option.some.inj heq)
        exact .checkLast
      · obtain ⟨_, -, heq⟩ := Option.map_eq_some_iff.mp hmap
        obtain ⟨rfl, rfl⟩ := Prod.mk.inj heq
        exact .checkLast
  | search _ thr =>
    cases thr with
    | none =>
      obtain ⟨rfl, rfl⟩ := Prod.mk.inj (Option.some.inj h)
      exact .searchEnd
    | some thr =>
      obtain ⟨node, hnode, heq⟩ := Option.map_eq_some_iff.mp h
      obtain ⟨rfl, rfl⟩ := Prod.mk.inj heq
      by_cases htid : node.val.tid = tid
      · rw [if_pos htid]
        exact .found hnode htid
      · rw [if_neg htid]
        exact .search hnode htid
  | count _ thr =>
    cases thr with
    | none =>
      obtain ⟨rfl, rfl⟩ := Prod.mk.inj (Option.some.inj h)
      exact .countEnd
    | some thr =>
      obtain ⟨_, hnode, heq⟩ := Option.map_eq_some_iff.mp h
      obtain ⟨rfl, rfl⟩ := Prod.mk.inj heq
      exact .count hnode
  | returned => cases h

/-- A call of one of the two functions. -/
structure Call where
  tid : Nat
  pc : CallPc
  deriving DecidableEq

/-- A manager in memory, the call that has its mutex, and all calls in the order of their
start. -/
structure ThreadList where
  mem : MgrMemory
  lock : Option Nat
  calls : List Call
  deriving DecidableEq

namespace ThreadList

/-- A manager at its creation. -/
def init : ThreadList where
  mem := ⟨Heap.empty, none, 0⟩
  lock := none
  calls := []

/-- The owner of the mutex behind the step of call `i`, unless it is blocked. -/
def lockBehind (s : ThreadList) (i : Nat) : CallPc → Option (Option Nat)
  | .registerLock | .unregisterLock => if s.lock = none then some (some i) else none
  | .registerUnlock _ | .unregisterUnlock _ => some none
  | _ => some s.lock

/-- One of the functions is called for the thread `tid`, or a call takes a step. -/
inductive Action
  | register (tid : Nat)
  | unregister (tid : Nat)
  | call (i : Nat) (ok : Bool)
  deriving DecidableEq

/-- One step of a call. -/
def callStep (s : ThreadList) (i : Nat) (ok : Bool) : Option ThreadList :=
  match s.calls[i]? with
  | none => none
  | some call =>
    match s.lockBehind i call.pc with
    | none => none
    | some lock =>
      (call.pc.step s.mem call.tid ok).map fun behind =>
        ⟨behind.1, lock, s.calls.set i { call with pc := behind.2 }⟩

/-- One step of the manager. -/
def step (s : ThreadList) : Action → Option ThreadList
  | .register tid => some { s with calls := s.calls ++ [⟨tid, .registerLock⟩] }
  | .unregister tid => some { s with calls := s.calls ++ [⟨tid, .unregisterLock⟩] }
  | .call i ok => s.callStep i ok

/-- What a step of the manager is a step of. -/
inductive ListStep (s : ThreadList) : Action → ThreadList → Prop
  | register {tid : Nat} :
      ListStep s (.register tid) { s with calls := s.calls ++ [⟨tid, .registerLock⟩] }
  | unregister {tid : Nat} :
      ListStep s (.unregister tid) { s with calls := s.calls ++ [⟨tid, .unregisterLock⟩] }
  | call {i : Nat} {ok : Bool} {call : Call} {lock : Option Nat} {mem : MgrMemory} {pc : CallPc}
      (hcall : s.calls[i]? = some call) (hlock : s.lockBehind i call.pc = some lock)
      (hstep : CallPc.StepsTo s.mem call.tid call.pc mem pc) :
      ListStep s (.call i ok) ⟨mem, lock, s.calls.set i { call with pc := pc }⟩

theorem step_cases {s s' : ThreadList} {a : Action} (h : s.step a = some s') :
    ListStep s a s' := by
  cases a with
  | register tid =>
    obtain rfl := Option.some.inj h
    exact .register
  | unregister tid =>
    obtain rfl := Option.some.inj h
    exact .unregister
  | call i ok =>
    change s.callStep i ok = some s' at h
    unfold callStep at h
    split at h
    · cases h
    · split at h
      · cases h
      · obtain ⟨⟨mem, pc⟩, hstep, rfl⟩ := Option.map_eq_some_iff.mp h
        exact .call ‹_› ‹_› (CallPc.step_cases hstep)

end ThreadList

end Rblpolicyd
