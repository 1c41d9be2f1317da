import Mathlib.Algebra.Group.Int.Defs
import Mathlib.Data.List.Induction

/-!
# Thread managers

A manager counts the threads that were created through it and keeps a record of
each in a list. Creation and exit change both under the manager's mutex, so the
operations on one manager follow one another; this module treats them as a sequence.

## Main definitions

* `Appstate`, `ThrMgr` — the state of the daemon, a manager without its mutex and name
* `thrRegister`, `thrUnregister` — the two changes to a manager
* `wthreadCreate`, `rthreadCreate` — the creation of a thread, as its manager sees it
* `MgrOp`, `runOps` — sequences of creations and exits

## Main results

* `accounted_iff` — a manager stays accounted exactly when no record fails to allocate
* `thrRegister_leak` — a record that fails to allocate leaves the count one too high
-/

namespace Rblpolicyd

/-- `appstate_t`. -/
inductive Appstate
  | run
  | reload
  | exit
  | error
  deriving DecidableEq

/-- `ERR_THR_TOOMANY`. -/
def errThrToomany : Int := 1

/-- `ERR_THR_SYSERR`. -/
def errThrSyserr : Int := 2

/-- `ERR_THR_APPSTATE`. -/
def errThrAppstate : Int := 3

/-- `thrmgr_t`: the count, and the thread ids along the list. The count is an `unsigned int`
that stays below the number of threads of a process. -/
structure ThrMgr where
  nthreads : Nat
  tlist : List Nat
  deriving DecidableEq

/-- A manager at its creation. -/
def ThrMgr.init : ThrMgr := ⟨0, []⟩

/-- `thr_register`; `mallocOk` is the outcome of the allocation of the record. -/
def thrRegister (mallocOk : Bool) (mgr : ThrMgr) (tid : Nat) : Int × ThrMgr :=
  let mgr := { mgr with nthreads := mgr.nthreads + 1 }
  if !mallocOk then (-1, mgr)
  else (0, { mgr with tlist := tid :: mgr.tlist })

/-- The search of `thr_unregister`: the list without the first record of the thread, `none`
when there is no record. -/
def unlink (tid : Nat) : List Nat → Option (List Nat)
  | [] => none
  | thr :: tlist => if thr = tid then some tlist else (unlink tid tlist).map (thr :: ·)

/-- `thr_unregister`. -/
def thrUnregister (mgr : ThrMgr) (tid : Nat) : Int × ThrMgr :=
  match unlink tid mgr.tlist with
  | some tlist => (0, { mgr with nthreads := mgr.nthreads - 1, tlist := tlist })
  | none => (-1, mgr)

/-- The condition under which `wthread_create` goes on waiting for a thread to end. The
comparison with the `unsigned` count converts `maxthreads`, an `int`. -/
def ThrMgr.full (mgr : ThrMgr) (maxthreads : Int) : Prop := maxthreads % 2 ^ 32 ≤ mgr.nthreads

instance (mgr : ThrMgr) (maxthreads : Int) : Decidable (mgr.full maxthreads) :=
  inferInstanceAs (Decidable (maxthreads % 2 ^ 32 ≤ mgr.nthreads))

/-- What `pthread_create` and `thr_register` do when a thread may be created; `thread` is the
id of the new thread, `none` when it cannot be created. -/
def createThread (thread : Option Nat) (mallocOk : Bool) (mgr : ThrMgr) : Int × ThrMgr :=
  match thread with
  | none => (-errThrSyserr, mgr)
  | some tid =>
    let (res, mgr) := thrRegister mallocOk mgr tid
    if res ≠ 0 then (-errThrSyserr, mgr) else (0, mgr)

/-- `wthread_create`. The manager is locked while it waits, so its count does not change. -/
def wthreadCreate (maxthreads : Int) (appstate : Appstate) (thread : Option Nat) (mallocOk : Bool)
    (mgr : ThrMgr) : Int × ThrMgr :=
  if appstate ≠ .run then (-errThrAppstate, mgr)
  else if mgr.full maxthreads then (-errThrToomany, mgr)
  else createThread thread mallocOk mgr

/-- `rthread_create`. -/
def rthreadCreate (thread : Option Nat) (mallocOk : Bool) (mgr : ThrMgr) : Int × ThrMgr :=
  createThread thread mallocOk mgr

/-- The operations on a manager, with the outcomes of the calls they make. -/
inductive MgrOp
  | wthreadCreate (appstate : Appstate) (thread : Option Nat) (mallocOk : Bool)
  | rthreadCreate (thread : Option Nat) (mallocOk : Bool)
  | threadExit (tid : Nat)
  deriving DecidableEq

/-- The result of an operation and the manager behind it. -/
def mgrOp (maxthreads : Int) (op : MgrOp) (mgr : ThrMgr) : Int × ThrMgr :=
  match op with
  | .wthreadCreate appstate thread mallocOk => wthreadCreate maxthreads appstate thread mallocOk mgr
  | .rthreadCreate thread mallocOk => rthreadCreate thread mallocOk mgr
  | .threadExit tid => thrUnregister mgr tid

/-- The manager behind a sequence of operations. -/
def runOps (maxthreads : Int) (ops : List MgrOp) : ThrMgr :=
  ops.foldl (fun mgr op => (mgrOp maxthreads op mgr).2) ThrMgr.init

/-- The operation creates a thread. -/
def MgrOp.IsCreate : MgrOp → Prop
  | .threadExit _ => False
  | _ => True

/-- The count is the number of records. -/
def ThrMgr.Balanced (mgr : ThrMgr) : Prop := mgr.nthreads = mgr.tlist.length

instance (mgr : ThrMgr) : Decidable mgr.Balanced :=
  inferInstanceAs (Decidable (mgr.nthreads = mgr.tlist.length))

/-- In every state the count is the number of records, and a creation that returns an error
changes nothing. -/
def Accounted (maxthreads : Int) (ops : List MgrOp) : Prop :=
  (∀ pre, pre <+: ops → (runOps maxthreads pre).Balanced) ∧
    ∀ pre op, pre ++ [op] <+: ops → op.IsCreate →
      (mgrOp maxthreads op (runOps maxthreads pre)).1 ≠ 0 →
      (mgrOp maxthreads op (runOps maxthreads pre)).2 = runOps maxthreads pre

/-- The operation gets to create its thread, but cannot allocate the record. -/
def LosesRecord (maxthreads : Int) (op : MgrOp) (mgr : ThrMgr) : Prop :=
  match op with
  | .wthreadCreate appstate thread mallocOk =>
    appstate = .run ∧ ¬ mgr.full maxthreads ∧ thread ≠ none ∧ mallocOk = false
  | .rthreadCreate thread mallocOk => thread ≠ none ∧ mallocOk = false
  | .threadExit _ => False

variable {maxthreads : Int} {op : MgrOp} {mgr : ThrMgr} {tid : Nat} {tlist : List Nat}
  {thread : Option Nat} {mallocOk : Bool}

theorem ThrMgr.lt_of_not_full (hmax : 0 ≤ maxthreads) (h : ¬ mgr.full maxthreads) :
    (mgr.nthreads : Int) < maxthreads := by
  unfold full at h
  omega

/-! ### Registration and its inverse -/

/-- The search finds the first record of a thread that has one. -/
theorem unlink_eq (tid : Nat) (tlist : List Nat) :
    unlink tid tlist = if tid ∈ tlist then some (tlist.erase tid) else none := by
  induction tlist with
  | nil => rfl
  | cons thr tlist ih =>
    rw [unlink, ih]
    by_cases hthr : thr = tid
    · simp [hthr]
    · have hne : tid ≠ thr := Ne.symm hthr
      by_cases hmem : tid ∈ tlist
      · simp [hthr, hne, hmem]
      · simp [hthr, hne, hmem]

theorem thrUnregister_of_mem (h : tid ∈ mgr.tlist) :
    thrUnregister mgr tid = (0, ⟨mgr.nthreads - 1, mgr.tlist.erase tid⟩) := by
  rw [thrUnregister, unlink_eq, if_pos h]

theorem thrUnregister_of_notMem (h : tid ∉ mgr.tlist) : thrUnregister mgr tid = (-1, mgr) := by
  rw [thrUnregister, unlink_eq, if_neg h]

theorem thrUnregister_balanced (h : mgr.Balanced) : (thrUnregister mgr tid).2.Balanced := by
  by_cases hmem : tid ∈ mgr.tlist
  · rw [thrUnregister_of_mem hmem, ThrMgr.Balanced, List.length_erase_of_mem hmem, ← h]
  · rw [thrUnregister_of_notMem hmem]
    exact h

/-- A record that fails to allocate leaves the count one too high. -/
theorem thrRegister_leak (mgr : ThrMgr) (tid : Nat) :
    thrRegister false mgr tid = (-1, { mgr with nthreads := mgr.nthreads + 1 }) := rfl

theorem createThread_leak (tid : Nat) (mgr : ThrMgr) :
    createThread (some tid) false mgr =
      (-errThrSyserr, { mgr with nthreads := mgr.nthreads + 1 }) := rfl

theorem createThread_balanced (h : mgr.Balanced) (hok : thread ≠ none → mallocOk = true) :
    (createThread thread mallocOk mgr).2.Balanced := by
  cases thread with
  | none => exact h
  | some tid =>
    rw [hok nofun]
    exact congrArg (· + 1) h

theorem createThread_of_error (hok : thread ≠ none → mallocOk = true)
    (herr : (createThread thread mallocOk mgr).1 ≠ 0) :
    (createThread thread mallocOk mgr).2 = mgr := by
  cases thread with
  | none => rfl
  | some tid =>
    rw [hok nofun] at herr
    exact absurd rfl herr

/-- `wthread_create` gives up without a change, or gets to create its thread. -/
theorem wthreadCreate_cases (maxthreads : Int) (appstate : Appstate) (thread : Option Nat)
    (mallocOk : Bool) (mgr : ThrMgr) :
    (wthreadCreate maxthreads appstate thread mallocOk mgr).2 = mgr ∨
      appstate = .run ∧ ¬ mgr.full maxthreads ∧
        wthreadCreate maxthreads appstate thread mallocOk mgr =
          createThread thread mallocOk mgr := by
  unfold wthreadCreate
  by_cases hrun : appstate = .run
  · by_cases hfull : mgr.full maxthreads
    · exact .inl (by rw [if_neg (not_not.mpr hrun), if_pos hfull])
    · exact .inr ⟨hrun, hfull, by rw [if_neg (not_not.mpr hrun), if_neg hfull]⟩
  · exact .inl (by rw [if_pos hrun])

/-! ### Sequences of operations -/

theorem mgrOp_balanced (h : mgr.Balanced) (hok : ¬ LosesRecord maxthreads op mgr) :
    (mgrOp maxthreads op mgr).2.Balanced := by
  cases op with
  | wthreadCreate appstate thread mallocOk =>
    rcases wthreadCreate_cases maxthreads appstate thread mallocOk mgr with
      hsame | ⟨hrun, hfull, hcreate⟩
    · rw [mgrOp, hsame]
      exact h
    · rw [mgrOp, hcreate]
      refine createThread_balanced h fun hthread => ?_
      by_contra hmalloc
      exact hok ⟨hrun, hfull, hthread, by simpa using hmalloc⟩
  | rthreadCreate thread mallocOk =>
    refine createThread_balanced h fun hthread => ?_
    by_contra hmalloc
    exact hok ⟨hthread, by simpa using hmalloc⟩
  | threadExit tid => exact thrUnregister_balanced h

theorem mgrOp_of_error (hcreate : op.IsCreate) (hok : ¬ LosesRecord maxthreads op mgr)
    (herr : (mgrOp maxthreads op mgr).1 ≠ 0) : (mgrOp maxthreads op mgr).2 = mgr := by
  cases op with
  | wthreadCreate appstate thread mallocOk =>
    rcases wthreadCreate_cases maxthreads appstate thread mallocOk mgr with
      hsame | ⟨hrun, hfull, hcreate⟩
    · exact hsame
    · rw [mgrOp, hcreate] at herr ⊢
      refine createThread_of_error (fun hthread => ?_) herr
      by_contra hmalloc
      exact hok ⟨hrun, hfull, hthread, by simpa using hmalloc⟩
  | rthreadCreate thread mallocOk =>
    refine createThread_of_error (fun hthread => ?_) herr
    by_contra hmalloc
    exact hok ⟨hthread, by simpa using hmalloc⟩
  | threadExit tid => cases hcreate

/-- A creation that loses its record returns an error and changes the manager. -/
theorem mgrOp_of_losesRecord (h : LosesRecord maxthreads op mgr) :
    op.IsCreate ∧ (mgrOp maxthreads op mgr).1 ≠ 0 ∧ (mgrOp maxthreads op mgr).2 ≠ mgr := by
  have hcount : ({ mgr with nthreads := mgr.nthreads + 1 } : ThrMgr) ≠ mgr := by
    intro heq
    have hnthreads := congrArg ThrMgr.nthreads heq
    exact Nat.succ_ne_self _ hnthreads
  have herr : -errThrSyserr ≠ 0 := by decide
  cases op with
  | wthreadCreate appstate thread mallocOk =>
    obtain ⟨rfl, hfull, hthread, rfl⟩ := h
    obtain ⟨tid, rfl⟩ := Option.ne_none_iff_exists'.mp hthread
    simp only [mgrOp, wthreadCreate, hfull, ne_eq, not_true_eq_false, if_false]
    rw [createThread_leak]
    exact ⟨trivial, herr, hcount⟩
  | rthreadCreate thread mallocOk =>
    obtain ⟨hthread, rfl⟩ := h
    obtain ⟨tid, rfl⟩ := Option.ne_none_iff_exists'.mp hthread
    rw [mgrOp, rthreadCreate, createThread_leak]
    exact ⟨trivial, herr, hcount⟩
  | threadExit tid => cases h

theorem runOps_concat (maxthreads : Int) (ops : List MgrOp) (op : MgrOp) :
    runOps maxthreads (ops ++ [op]) = (mgrOp maxthreads op (runOps maxthreads ops)).2 := by
  simp [runOps]

/-- A manager stays accounted through a sequence of operations exactly when no creation in it
fails to allocate its record. -/
theorem accounted_iff (maxthreads : Int) (ops : List MgrOp) :
    Accounted maxthreads ops ↔
      ∀ pre op, pre ++ [op] <+: ops → ¬ LosesRecord maxthreads op (runOps maxthreads pre) := by
  constructor
  · rintro ⟨-, herrors⟩ pre op hpre hloses
    obtain ⟨hcreate, herr, hchanged⟩ := mgrOp_of_losesRecord hloses
    exact hchanged (herrors pre op hpre hcreate herr)
  · intro hok
    refine ⟨fun pre hpre => ?_, fun pre op hpre hcreate => mgrOp_of_error hcreate (hok pre op hpre)⟩
    induction pre using List.reverseRecOn with
    | nil => rfl
    | append_singleton pre op ih =>
      rw [runOps_concat]
      exact mgrOp_balanced (ih ((List.prefix_append pre [op]).trans hpre)) (hok pre op hpre)

/-- One worker whose record cannot be allocated: the call fails, nothing is in the list, and
with a limit of one thread the manager is full from then on. -/
theorem not_accounted_of_malloc :
    mgrOp 1 (.wthreadCreate .run (some 7) false) ThrMgr.init = (-errThrSyserr, ⟨1, []⟩) ∧
      mgrOp 1 (.wthreadCreate .run (some 8) true) ⟨1, []⟩ = (-errThrToomany, ⟨1, []⟩) ∧
      ¬ Accounted 1 [.wthreadCreate .run (some 7) false] := by
  refine ⟨by decide, by decide, fun h => ?_⟩
  exact absurd (h.1 _ List.prefix_rfl) (by decide)

end Rblpolicyd
