import Mathlib.Data.List.Infix
import Mathlib.Data.List.Range
import Rblpolicyd.Libc.Bytes

/-!
# The bytes of an allocated block

A block that `malloc` or `realloc` returned is read and written by offset; how
many offsets belong to it is kept by the program that asked for it. The first
bytes of a block, as a list, are what a reader of the block sees, and each write
is a fact about such a list. `strcmp` stops at the first byte that differs, so
the offsets it reads are listed next to its result.

## Main definitions

* `Block`, `Block.bytes` — a block and its first bytes
* `Block.store`, `Block.fill`, `Block.realloc` — a store, a `read` into it, `realloc`
* `Block.strcmpEq`, `Block.strcmpReads` — `strcmp` against a literal

## Main results

* `Block.bytes_fill`, `Block.bytes_store`, `Block.bytes_realloc` — what the writes leave
* `Block.strcmpEq_iff` — a comparison near the end of a string is a test of its suffix
* `Block.strcmpReads_le` — a comparison does not read behind the literal's length
-/

namespace Libc

/-- The content of an allocated block, by offset. -/
abbrev Block := Nat → UInt8

namespace Block

/-- The first `n` bytes. -/
def bytes (b : Block) (n : Nat) : Bytes := (List.range' 0 n).map b

/-- `b[i] = c`. -/
def store (b : Block) (i : Nat) (c : UInt8) : Block := fun k => if k = i then c else b k

/-- The bytes a `read` puts into the block from `i` on. -/
def fill (b : Block) (i : Nat) (data : Bytes) : Block :=
  fun k => if i ≤ k then data.getD (k - i) (b k) else b k

/-- A block with the first `n` bytes of an old one. -/
def keep (fresh : Block) (n : Nat) (old : Block) : Block :=
  fun k => if k < n then old k else fresh k

/-- `realloc(old, size)` for a block of `n` bytes; `outcome` is what an allocation of that
size returns. A negative size, as a `size_t`, is one that no allocation meets. -/
def realloc (old : Option Block) (n : Nat) (outcome : Option Block) (size : Int) :
    Option Block :=
  if size < 0 then none
  else outcome.map fun fresh =>
    match old with
    | none => fresh
    | some b => fresh.keep n b

/-- `strcmp(b + i, text) == 0`. -/
def strcmpEq (b : Block) : Nat → Bytes → Bool
  | i, [] => b i = nul
  | i, c :: text => b i = c && b.strcmpEq (i + 1) text

/-- The offsets `strcmp(b + i, text)` reads: those up to the first difference. -/
def strcmpReads (b : Block) : Nat → Bytes → List Nat
  | i, [] => [i]
  | i, c :: text => if b i = c then i :: b.strcmpReads (i + 1) text else [i]

/-! ### The first bytes -/

variable {b : Block} {i n : Nat}

/-- The first bytes depend on no others. -/
theorem bytes_congr {b b' : Block} (h : ∀ k < n, b k = b' k) : b.bytes n = b'.bytes n := by
  apply List.map_congr_left
  intro k hk
  exact h k (by simpa using hk)

theorem bytes_add (b : Block) (m n : Nat) :
    b.bytes (m + n) = b.bytes m ++ (List.range' m n).map b := by
  have hrange : List.range' 0 m ++ List.range' m n = List.range' 0 (m + n) := by
    have happend := @List.range'_append 0 m n 1
    simpa using happend
  rw [bytes, bytes, ← hrange, List.map_append]

theorem bytes_store (h : n ≤ i) (c : UInt8) : (b.store i c).bytes n = b.bytes n := by
  apply bytes_congr
  intro k hk
  exact if_neg (by omega)

@[simp] theorem store_self (b : Block) (i : Nat) (c : UInt8) : b.store i c i = c := if_pos rfl

theorem bytes_keep (h : n ≤ i) (fresh : Block) : (fresh.keep i b).bytes n = b.bytes n := by
  apply bytes_congr
  intro k hk
  exact if_pos (by omega)

theorem nonneg_of_realloc {old outcome : Option Block} {size : Int}
    (h : realloc old n outcome size = some b) : 0 ≤ size := by
  rw [realloc] at h
  split_ifs at h with hneg
  omega

/-- The bytes of the old block are those of the new one. -/
theorem bytes_realloc {b' : Block} {outcome : Option Block} {size : Int} (hn : n ≤ i)
    (h : realloc (some b) i outcome size = some b') : b'.bytes n = b.bytes n := by
  rw [realloc] at h
  split_ifs at h
  obtain ⟨fresh, -, rfl⟩ := Option.map_eq_some_iff.mp h
  exact bytes_keep hn fresh

/-- A `read` appends its bytes to those that stand before them. -/
theorem bytes_fill (b : Block) (n : Nat) (data : Bytes) :
    (b.fill n data).bytes (n + data.length) = b.bytes n ++ data := by
  have hbefore : (b.fill n data).bytes n = b.bytes n := by
    apply bytes_congr
    intro k hk
    exact if_neg (by omega)
  rw [bytes_add, hbefore]
  congr 1
  apply List.ext_getElem
  · simp
  · intro k hk hk'
    rw [List.getElem_map, List.getElem_range', fill, if_pos (by omega)]
    simp [hk']

/-! ### Comparing near the end -/

theorem strcmpEq_iff_map (text : Bytes) :
    b.strcmpEq i text = true ↔
      (List.range' i text.length).map b = text ∧ b (i + text.length) = nul := by
  induction text generalizing i with
  | nil => simp [strcmpEq]
  | cons c text ih =>
    rw [strcmpEq, Bool.and_eq_true, ih, decide_eq_true_eq, List.length_cons, List.range'_succ,
      List.map_cons, List.cons.injEq, Nat.add_assoc, Nat.add_comm 1, and_assoc]

/-- Behind `n` bytes and a NUL, a comparison that starts the literal's length before the
NUL tests how the bytes end. -/
theorem strcmpEq_iff {text : Bytes} (hn : i + text.length = n) (hnul : b n = nul) :
    b.strcmpEq i text = true ↔ text <:+ b.bytes n := by
  rw [strcmpEq_iff_map, hn, ← hn, bytes_add]
  constructor
  · rintro ⟨hmap, -⟩
    rw [hmap]
    exact List.suffix_append _ _
  · intro hsuffix
    refine ⟨?_, by rw [hn, hnul]⟩
    obtain ⟨front, hfront⟩ := hsuffix
    exact (List.append_inj_right' hfront (by simp)).symm

/-- A comparison reads the literal's length and the byte behind it at the most. -/
theorem strcmpReads_le {text : Bytes} {k : Nat} (h : k ∈ b.strcmpReads i text) :
    i ≤ k ∧ k ≤ i + text.length := by
  induction text generalizing i with
  | nil =>
    obtain rfl := List.mem_singleton.mp h
    simp
  | cons c text ih =>
    rw [strcmpReads] at h
    split_ifs at h with hc
    · rcases List.mem_cons.mp h with rfl | h
      · simp
      · have hrest := ih h
        rw [List.length_cons]
        omega
    · obtain rfl := List.mem_singleton.mp h
      simp

end Block

end Libc
