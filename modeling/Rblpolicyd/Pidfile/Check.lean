import Rblpolicyd.Pidfile.RoundTrip

/-!
# A pid file left by a running daemon: `pid_check`

At start `main` gives up unless `pid_check` returns 0. The file is looked up with
`stat`, its pid is read by `pid_get`, and `kill(pid, 0)` tells whether the process is
there. The code takes every result of `kill` other than 0 for a process that is gone,
also `EPERM`, which a process of another user gives; and a file that `stat` or `fopen`
cannot reach for no pid file at all.

## Main definitions

* `ProcessTable`, `ProcessTable.kill0` — the running processes and `kill(pid, 0)`
* `PidFile`, `pidCheck` — the file as `stat` and `fopen` find it, and `pid_check`
* `PidFile.Names` — the file begins with the number of a process
* `Respected` — a file that names a running process is neither removed nor ignored
* `Refusing` — the file can be read, and the process be signalled or the file not be removed

## Main results

* `pidCheck_of_names` — what `pid_check` does with a file that names a running process
* `respected_iff` — exactly when a running daemon's pid file is respected
* `ownedByRoot_not_respected` — a process of another user
-/

namespace Rblpolicyd

open Libc

/-- The processes that exist, as the caller sees them. -/
structure ProcessTable where
  /-- the user the caller runs as; 0 may signal every process -/
  caller : Nat
  /-- the user a process runs as, `none` where there is no such process -/
  owner : Int → Option Nat
  /-- a pid is a positive `pid_t` -/
  range : ∀ pid, owner pid ≠ none → 1 ≤ pid ∧ pid ≤ 2 ^ 31 - 1

/-- What `kill` comes to: 0, or -1 with an error number. -/
inductive KillResult where
  | ok
  | eperm
  | esrch
  deriving DecidableEq

/-- `kill(pid, 0)`. -/
def ProcessTable.kill0 (table : ProcessTable) (pid : Int) : KillResult :=
  match table.owner pid with
  | none => .esrch
  | some uid => if table.caller = 0 ∨ uid = table.caller then .ok else .eperm

/-- The file types of `st_mode`, with links followed. -/
inductive FileType where
  | regular
  | directory
  | characterDevice
  | blockDevice
  | fifo
  | socket
  deriving DecidableEq

/-- A pid file that exists. -/
structure PidFile where
  type : FileType
  /-- `stat` reaches the file -/
  found : Bool
  /-- `fopen(pidfile, "r")` gives a stream -/
  opens : Bool
  /-- what `fgetc` gives before `EOF` -/
  content : Bytes

/-- What `pid_check` does: its result, whether it removes the file, and what it prints. -/
structure CheckOutcome where
  result : Int
  removed : Bool
  stderr : Bytes

/-- `pid_check`; `none` where there is no file. -/
def pidCheck (table : ProcessTable) (path : Bytes) : Option PidFile → CheckOutcome
  | none => ⟨0, false, []⟩
  | some file =>
    if file.found then
      let pid := pidGet (if file.opens then some file.content else none)
      if pid ≤ 0 then ⟨0, false, []⟩
      else if table.kill0 pid = .ok then
        ⟨-1, false, ascii "Process " ++ printInt pid ++ ascii " is still running\n"⟩
      else if file.type = .regular then ⟨0, true, []⟩
      else ⟨-1, false, ascii "Stale pidfile " ++ path ++ ascii " not removed: Not a regular file\n"⟩
    else ⟨0, false, []⟩

/-- The file begins with the decimal number of a process. -/
def PidFile.Names (file : PidFile) (pid : Int) : Prop :=
  (decimalValue (file.content.takeWhile (isDigit 10)) : Int) = pid

/-- A file that begins with the number of a process that exists is not removed, and the
caller is told so. -/
def Respected (table : ProcessTable) (path : Bytes) (file : PidFile) : Prop :=
  ∀ pid, table.owner pid ≠ none → file.Names pid →
    (pidCheck table path (some file)).result ≠ 0 ∧
      (pidCheck table path (some file)).removed = false

/-- The file can be read, and its process be signalled or the file is no regular one. -/
def Refusing (table : ProcessTable) (file : PidFile) (pid : Int) : Prop :=
  (file.found = true ∧ file.opens = true) ∧
    (table.caller = 0 ∨ table.owner pid = some table.caller ∨ file.type ≠ .regular)

/-- The number of a process that exists is read as it stands. -/
theorem pidGet_of_names {table : ProcessTable} {file : PidFile} {pid : Int}
    (hruns : table.owner pid ≠ none) (hnames : file.Names pid) :
    pidGet (some file.content) = pid := by
  have hrange := table.range pid hruns
  rw [pidGet_eq, hnames]
  apply toInt32_of_mem
  omega

/-- `kill` gives 0 exactly for a process that the caller may signal. -/
theorem kill0_eq_ok_iff {table : ProcessTable} {pid : Int} (hruns : table.owner pid ≠ none) :
    table.kill0 pid = .ok ↔ table.caller = 0 ∨ table.owner pid = some table.caller := by
  unfold ProcessTable.kill0
  cases howner : table.owner pid with
  | none => exact absurd howner hruns
  | some uid =>
    simp only [Option.some.injEq]
    split_ifs with hsignal
    · simp [hsignal]
    · simp [hsignal]

/-- With a file that names a running process, `pid_check` fails exactly where the file can be
read and `kill` succeeds or the file is not a regular one. -/
theorem pidCheck_of_names {table : ProcessTable} {path : Bytes} {file : PidFile} {pid : Int}
    (hruns : table.owner pid ≠ none) (hnames : file.Names pid) :
    ((pidCheck table path (some file)).result ≠ 0 ∧
        (pidCheck table path (some file)).removed = false) ↔ Refusing table file pid := by
  have hpositive : ¬ pid ≤ 0 := by
    have hrange := table.range pid hruns
    omega
  have hread := pidGet_of_names hruns hnames
  have hkill := kill0_eq_ok_iff hruns
  unfold Refusing pidCheck
  by_cases hfound : file.found = true
  · by_cases hopens : file.opens = true
    · -- the file is read: `kill` decides, then the type of the file
      by_cases hok : table.kill0 pid = .ok
      · have hsignal := hkill.mp hok
        simp only [hfound, hopens, if_true, hread, hpositive, if_false, hok]
        tauto
      · have hsignal := mt hkill.mpr hok
        rw [not_or] at hsignal
        by_cases htype : file.type = .regular
        · simp [hfound, hopens, hread, hpositive, hok, htype, hsignal]
        · simp [hfound, hopens, hread, hpositive, hok, htype]
    · simp [hfound, hopens, pidGet]
  · simp [hfound]

/-- **When a running daemon's pid file is respected.** -/
theorem respected_iff (table : ProcessTable) (path : Bytes) (file : PidFile) :
    Respected table path file ↔
      ∀ pid, table.owner pid ≠ none → file.Names pid → Refusing table file pid := by
  constructor
  · intro h pid hruns hnames
    exact (pidCheck_of_names hruns hnames).mp (h pid hruns hnames)
  · intro h pid hruns hnames
    exact (pidCheck_of_names hruns hnames).mpr (h pid hruns hnames)

/-- Process 4242 of the superuser, seen by another user. -/
def rootProcess : ProcessTable where
  caller := 1000
  owner pid := if pid = 4242 then some 0 else none
  range pid h := by
    by_cases hpid : pid = 4242
    · omega
    · exact absurd (if_neg hpid) h

/-- A readable pid file with that number. -/
def rootPidFile : PidFile := ⟨.regular, true, true, ascii "4242\n"⟩

/-- The file of a daemon that runs as the superuser is removed by another user's start. -/
theorem ownedByRoot_not_respected :
    (rootProcess.owner 4242 = some 0 ∧ rootPidFile.Names 4242) ∧
      ¬ Respected rootProcess (ascii "/var/run/rblpolicyd.pid") rootPidFile := by
  have hnames : rootPidFile.Names 4242 := by
    unfold PidFile.Names
    decide +kernel
  refine ⟨⟨rfl, hnames⟩, fun h => ?_⟩
  have hruns : rootProcess.owner 4242 ≠ none := by decide
  have hkept := (h 4242 hruns hnames).2
  have hremoved : (pidCheck rootProcess (ascii "/var/run/rblpolicyd.pid")
      (some rootPidFile)).removed = true := by decide +kernel
  rw [hremoved] at hkept
  exact Bool.noConfusion hkept

end Rblpolicyd
