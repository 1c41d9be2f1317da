import Rblpolicyd.Libc.Heap
import Rblpolicyd.Libc.Lines
import Rblpolicyd.Libc.Numerals

/-!
# Reading the list of blacklists

The configuration file holds one blacklist a line, a domain and a weight.
`cfg_read` reads it through a fixed buffer, cuts comments and trailing white space
in place, splits each line with two pointers, and links the entries at the tail of
a list in allocated memory; any bad line frees the list and gives up.

## Main definitions

* `Cfgitem` — an entry, without the link
* `cfgCleanline`, `scanDomain` — trimming a buffer, copying the domain out of it
* `cfgReadLine`, `cfgReadLoop`, `cfgRead` — one line, all lines, the whole function
* `cfgFree` — freeing a list
-/

namespace Rblpolicyd

open Libc

/-- `MAXLINE`. -/
def maxline : Nat := 1024

/-- `SHRT_MAX`. -/
def shrtMax : Int := 32767

/-- The byte that starts a comment. -/
abbrev hash : UInt8 := 35

/-- `cfgitem_t`; the link is in the list node. -/
structure Cfgitem where
  rbldomain : Bytes
  weight : Int
  questions : UInt32
  positive : UInt32
  deriving DecidableEq

/-- The memory that holds lists of entries. -/
abbrev CfgHeap := Heap (Node Cfgitem)

/-! ### `cfg_cleanline` -/

/-- The forward scan: the offset of the first NUL or `#`. -/
def commentStart (line : Bytes) : Nat :=
  (line.takeWhile fun b => b ≠ nul ∧ b ≠ hash).length

/-- The backward scan, with the pointer one position behind the byte it looks at, so
that 0 is the pointer that has left the buffer. -/
def trimBack (line : Bytes) : Nat → Bytes
  | 0 => line
  | x + 1 =>
    let b := line.getD x nul
    if b = nul ∨ isspace b then trimBack (line.set x nul) x else line

/-- `cfg_cleanline`, on a buffer with its terminating NUL. -/
def cfgCleanline (line : Bytes) : Bytes :=
  let x := commentStart line
  trimBack (line.set x nul) (x + 1)

/-! ### `cfg_read` -/

/-- The loop that copies a domain: what `x` points at when it ends, and `temp`. -/
def scanDomain : Bytes → Bytes → Bytes × Bytes
  | [], temp => ([], temp)
  | b :: x, temp =>
    if isspace b then
      if temp = [] then scanDomain x temp else (b :: x, temp)
    else scanDomain x (temp ++ [b])

/-- The list under construction: its memory, `first` and `last`. -/
structure ReadState where
  heap : CfgHeap
  first : Option Nat
  last : Option Nat
  deriving DecidableEq

/-- The body of the reading loop on one buffer; an error is the jump to `err_cleanup`.
`callocOk` is the outcome of the allocation of the entry. -/
def cfgReadLine (callocOk : Bool) (buf : Bytes) (st : ReadState) : Except ReadState ReadState :=
  let line := cstr (cfgCleanline (buf ++ [nul]))
  if line = [] then .ok st
  else
    let (x, temp) := scanDomain line []
    if x = [] then .error st
    else if !callocOk then .error st
    else
      let (current, heap) := st.heap.alloc ⟨⟨temp, 0, 0, 0⟩, none⟩
      let (weight, y) := strtol0 (x.dropWhile isspace)
      -- from here on the entry is allocated but not yet linked: an error leaks it
      if y ≠ [] then .error { st with heap := heap }
      else if weight ≤ 0 ∨ weight > shrtMax then .error { st with heap := heap }
      else
        let heap := heap.write current ⟨⟨temp, weight, 0, 0⟩, none⟩
        let heap := match st.last with
          | none => heap
          | some last => heap.setNext last (some current)
        .ok { heap := heap, first := st.first.or (some current), last := some current }

/-- The reading loop over the buffers that `fgets` returns; `callocOk` is indexed by line. -/
def cfgReadLoop (callocOk : Nat → Bool) : Nat → List Bytes → ReadState → Except ReadState ReadState
  | _, [], st => .ok st
  | lineno, buf :: bufs, st =>
    match cfgReadLine (callocOk lineno) buf st with
    | .error st => .error st
    | .ok st => cfgReadLoop callocOk (lineno + 1) bufs st

/-- `cfg_free`: free the list at `first`. -/
def cfgFree (heap : CfgHeap) (first : Option Nat) : CfgHeap :=
  heap.freeList heap.cells.length first

/-- The buffers of a whole file. -/
def fileBuffers (content : Bytes) : List Bytes :=
  fgetsAll (maxline - 1) content.length content

/-- `cfg_read` on a file's content, `none` when it cannot be opened: the list and the
memory behind it. -/
def cfgRead (callocOk : Nat → Bool) (heap : CfgHeap) (file : Option Bytes) :
    Option Nat × CfgHeap :=
  match file with
  | none => (none, heap)
  | some content =>
    match cfgReadLoop callocOk 1 (fileBuffers content) ⟨heap, none, none⟩ with
    | .ok st => (st.first, st.heap)
    | .error st => (none, cfgFree st.heap st.first)

/-! ### What trimming leaves -/

/-- A line cut at its first `#`, without the white space before that. -/
def strippedLine (line : Bytes) : Bytes :=
  (line.takeWhile (· ≠ hash)).rdropWhile isspace

/-- The backward scan removes trailing white space, from a NUL on. -/
theorem cstr_trimBack {s : Bytes} (hs : nul ∉ s) (rest : Bytes) :
    cstr (trimBack (s ++ nul :: rest) s.length) = s.rdropWhile isspace := by
  induction s using List.reverseRecOn generalizing rest with
  | nil => simp [trimBack, cstr]
  | append_singleton s b ih =>
    have hb : b ≠ nul := fun e => hs (by simp [e])
    have hs' : nul ∉ s := fun h => hs (List.mem_append_left _ h)
    have hget : (s ++ [b] ++ nul :: rest).getD s.length nul = b := by simp
    rw [List.length_append, List.length_singleton, trimBack, hget, List.rdropWhile_concat]
    by_cases hspace : isspace b
    · have hset : (s ++ [b] ++ nul :: rest).set s.length nul = s ++ nul :: nul :: rest := by simp
      simp only [hspace, or_true, if_true, hset]
      exact ih hs' (nul :: rest)
    · simp only [hspace, hb, or_self, if_false, Bool.false_eq_true]
      exact cstr_append_nul hs rest

/-- The forward scan stops behind the text before the comment. -/
theorem takeWhile_append_nul (buf : Bytes) :
    (buf ++ [nul]).takeWhile (fun b => b ≠ nul ∧ b ≠ hash) =
      (cstr buf).takeWhile (· ≠ hash) := by
  have hboth : (cstr buf).takeWhile (· ≠ hash) =
      buf.takeWhile (fun b => b ≠ nul ∧ b ≠ hash) := by
    rw [cstr, List.takeWhile_takeWhile]
    congr 1
    funext b
    simp [and_comm]
  rw [hboth, List.takeWhile_append]
  split_ifs with hall
  · rw [List.takeWhile_cons_of_neg (by simp), List.append_nil]
    exact ((List.takeWhile_prefix _).eq_of_length hall).symm
  · rfl

/-- The scans only see the part of the buffer before its first NUL, and leave it cut at
its comment and stripped. -/
theorem cstr_cfgCleanline (buf : Bytes) :
    cstr (cfgCleanline (buf ++ [nul])) = strippedLine (cstr buf) := by
  have hstart := takeWhile_append_nul buf
  have hnotAll : (buf ++ [nul]).dropWhile (fun b => b ≠ nul ∧ b ≠ hash) ≠ [] := fun h => by
    simpa using List.dropWhile_eq_nil_iff.mp h nul (by simp)
  obtain ⟨b, rest, hdrop⟩ := List.exists_cons_of_ne_nil hnotAll
  have hsplit := List.takeWhile_append_dropWhile (p := fun b => decide (b ≠ nul ∧ b ≠ hash))
    (l := buf ++ [nul])
  rw [hstart, hdrop] at hsplit
  have hlength : commentStart (buf ++ [nul]) = ((cstr buf).takeWhile (· ≠ hash)).length := by
    rw [commentStart, hstart]
  have hnul : nul ∉ (cstr buf).takeWhile (· ≠ hash) := fun h =>
    nul_notMem_cstr buf ((List.takeWhile_prefix _).subset h)
  rw [cfgCleanline, hlength, ← hsplit, strippedLine]
  generalize (cstr buf).takeWhile (· ≠ hash) = s at hnul ⊢
  -- the first byte of the backward scan is the NUL just stored
  have hset : (s ++ b :: rest).set s.length nul = s ++ nul :: rest := by simp
  have hget : (s ++ nul :: rest).getD s.length nul = nul := by simp
  have hagain : (s ++ nul :: rest).set s.length nul = s ++ nul :: rest := by simp
  simp only [hset, trimBack, hget, hagain, true_or, if_true]
  exact cstr_trimBack hnul rest

end Rblpolicyd
