import Rblpolicyd.Libc.Bytes

/-!
# Lines of a file and `fgets`

`fgets` stops behind a newline or when its buffer is full, whichever comes first.
Read through a buffer that every line fits, a file falls into its lines.

## Main definitions

* `fgets`, `fgetsAll` — one call, and the calls until end of file
* `fileLines` — the lines of a file, each with its newline
* `Piece`, `cut` — a line in pieces of a fixed size, each with what stands before it

## Main results

* `fileLines_flatten` — a file that is written line by line
* `fgetsAll_eq_fileLines` — with lines that fit, the calls return the lines
* `fgetsAll_eq_cut` — in general they return the pieces of the lines
-/

namespace Libc

/-- The bytes through the first newline, at most `room` of them, and what is left. -/
def readUpTo : Nat → Bytes → Bytes × Bytes
  | 0, s => ([], s)
  | _ + 1, [] => ([], [])
  | room + 1, b :: s =>
    if b = lf then ([b], s) else (b :: (readUpTo room s).1, (readUpTo room s).2)

/-- `fgets` with a buffer of `size` bytes: what it stores before the NUL and the rest of
the file, `none` at end of file. -/
def fgets (size : Nat) (s : Bytes) : Option (Bytes × Bytes) :=
  if s = [] then none else some (readUpTo (size - 1) s)

/-- The buffers that `fgets` fills until end of file, at most `fuel` of them. -/
def fgetsAll (size : Nat) : Nat → Bytes → List Bytes
  | 0, _ => []
  | fuel + 1, s =>
    match fgets size s with
    | none => []
    | some (line, rest) => line :: fgetsAll size fuel rest

/-- The bytes through the first newline, and what is left. -/
def readLine : Bytes → Bytes × Bytes
  | [] => ([], [])
  | b :: s => if b = lf then ([b], s) else (b :: (readLine s).1, (readLine s).2)

/-- The lines of a file, each with its newline; the last one may have none. -/
def fileLines : Bytes → List Bytes
  | [] => []
  | b :: s =>
    if b = lf then [b] :: fileLines s
    else
      match fileLines s with
      | [] => [[b]]
      | line :: lines => (b :: line) :: lines

theorem readLine_snd_length_lt {s : Bytes} (h : s ≠ []) : (readLine s).2.length < s.length := by
  induction s with
  | nil => exact absurd rfl h
  | cons b s ih =>
    rw [readLine]
    split_ifs with hb
    · simp
    · cases s with
      | nil => simp [readLine]
      | cons c s =>
        have hlt := ih (List.cons_ne_nil c s)
        simp only [List.length_cons] at hlt ⊢
        omega

theorem fileLines_eq_cons {s : Bytes} (h : s ≠ []) :
    fileLines s = (readLine s).1 :: fileLines (readLine s).2 := by
  induction s with
  | nil => exact absurd rfl h
  | cons b s ih =>
    rw [fileLines, readLine]
    split_ifs with hb
    · rfl
    · cases s with
      | nil => rfl
      | cons c s => rw [ih (List.cons_ne_nil c s)]

/-- The lines of a file make up the file. -/
theorem flatten_fileLines (s : Bytes) : (fileLines s).flatten = s := by
  induction s with
  | nil => rfl
  | cons b s ih =>
    rw [fileLines]
    split_ifs with hb
    · rw [List.flatten_cons, ih, List.singleton_append]
    · cases hlines : fileLines s with
      | nil => simpa [hlines] using ih
      | cons line lines =>
        rw [hlines] at ih
        rw [← ih]
        rfl

theorem mem_of_mem_fileLines {s line : Bytes} (hline : line ∈ fileLines s) {b : UInt8}
    (hb : b ∈ line) : b ∈ s := by
  rw [← flatten_fileLines s]
  exact List.mem_flatten_of_mem hline hb

/-- A text without a newline and the newline behind it are a line. -/
theorem readLine_append_lf {text : Bytes} (h : lf ∉ text) (rest : Bytes) :
    readLine (text ++ lf :: rest) = (text ++ [lf], rest) := by
  induction text with
  | nil => simp [readLine]
  | cons b text ih =>
    obtain ⟨hb, htext⟩ := not_or.mp (mt List.mem_cons.mpr h)
    rw [List.cons_append, readLine, if_neg (Ne.symm hb), ih htext]
    rfl

/-- A file that is written line by line has these lines. -/
theorem fileLines_flatten {texts : List Bytes} (h : ∀ text ∈ texts, lf ∉ text) :
    fileLines (texts.map (· ++ [lf])).flatten = texts.map (· ++ [lf]) := by
  induction texts with
  | nil => rfl
  | cons text texts ih =>
    have htext := h text List.mem_cons_self
    have hrest := ih fun other hother => h other (List.mem_cons_of_mem text hother)
    rw [List.map_cons, List.flatten_cons, List.append_assoc, List.singleton_append,
      fileLines_eq_cons (by simp), readLine_append_lf htext, hrest]

/-- A limit that the first line respects does not change what is read. -/
theorem readUpTo_eq_readLine {room : Nat} {s : Bytes} (h : (readLine s).1.length ≤ room)
    (hpos : 0 < room) : readUpTo room s = readLine s := by
  induction room generalizing s with
  | zero => exact absurd hpos (Nat.lt_irrefl 0)
  | succ room ih =>
    cases s with
    | nil => rfl
    | cons b s =>
      rw [readLine] at h ⊢
      rw [readUpTo]
      split_ifs with hb
      · rfl
      · rw [if_neg hb, List.length_cons] at h
        rcases Nat.eq_zero_or_pos room with rfl | hroom
        · -- the line is this one byte, and the file ends behind it
          have hnil : (readLine s).1 = [] := List.eq_nil_of_length_eq_zero (by omega)
          cases s with
          | nil => rfl
          | cons c s =>
            rw [readLine] at hnil
            split_ifs at hnil
        · rw [ih (Nat.le_of_succ_le_succ h) hroom]

/-- Through a buffer that every line fits, with fuel for every line, a file is read
line by line. -/
theorem fgetsAll_eq_fileLines {size fuel : Nat} {s : Bytes} (hsize : 2 ≤ size)
    (hlines : ∀ line ∈ fileLines s, line.length ≤ size - 1) (hfuel : s.length ≤ fuel) :
    fgetsAll size fuel s = fileLines s := by
  induction fuel generalizing s with
  | zero =>
    obtain rfl := List.eq_nil_of_length_eq_zero (Nat.le_zero.mp hfuel)
    rfl
  | succ fuel ih =>
    rw [fgetsAll, fgets]
    by_cases hs : s = []
    · simp [hs, fileLines]
    · rw [fileLines_eq_cons hs] at hlines ⊢
      have hread : readUpTo (size - 1) s = readLine s :=
        readUpTo_eq_readLine (hlines _ (List.mem_cons_self ..)) (by omega)
      have hlt := readLine_snd_length_lt hs
      rw [if_neg hs, hread]
      dsimp only
      rw [ih (fun line hline => hlines line (List.mem_cons_of_mem _ hline)) (by omega)]

/-! ### Lines that do not fit -/

/-- A piece of a line, with the part of the line before it. -/
structure Piece where
  before : Bytes
  buf : Bytes
  deriving DecidableEq

/-- A line in pieces of `room` bytes, the last of which may be shorter. -/
def cut (room : Nat) (line : Bytes) : List Piece :=
  (List.range ((line.length + (room - 1)) / room)).map fun i =>
    ⟨line.take (room * i), (line.drop (room * i)).take room⟩

@[simp] theorem cut_nil (room : Nat) : cut room [] = [] := by
  rcases room with - | room <;> simp [cut, Nat.div_eq_of_lt]

/-- The pieces are read in the line, one behind the other. -/
theorem eq_of_mem_cut {room : Nat} {line : Bytes} {p : Piece} (hp : p ∈ cut room line) :
    ∃ rest, line = p.before ++ p.buf ++ rest := by
  obtain ⟨i, -, rfl⟩ := List.mem_map.mp hp
  refine ⟨(line.drop (room * i)).drop room, ?_⟩
  rw [List.append_assoc, List.take_append_drop, List.take_append_drop]

/-- The first piece fills the room, and the others are those of the rest. -/
theorem map_buf_cut {room : Nat} (hroom : 0 < room) {line : Bytes} (hline : line ≠ []) :
    (cut room line).map Piece.buf =
      line.take room :: (cut room (line.drop room)).map Piece.buf := by
  have hpos : 0 < line.length := List.length_pos_iff.mpr hline
  have hcount : (line.length + (room - 1)) / room =
      ((line.drop room).length + (room - 1)) / room + 1 := by
    rw [List.length_drop]
    rcases Nat.le_total line.length room with hle | hle
    · rw [Nat.sub_eq_zero_of_le hle, Nat.div_eq_of_lt (by omega : 0 + (room - 1) < room)]
      exact Nat.div_eq_of_lt_le (by omega) (by omega)
    · rw [← Nat.add_div_right _ hroom]
      congr 1
      omega
  rw [cut, cut, hcount, List.range_succ_eq_map]
  simp only [List.map_cons, List.map_map, Nat.mul_zero, List.drop_zero, List.cons.injEq, true_and]
  apply List.map_congr_left
  intro i _
  simp only [Function.comp_apply, List.drop_drop]
  rw [Nat.mul_succ, Nat.add_comm]

/-- A line that fits is one piece. -/
theorem cut_of_fits {room : Nat} {line : Bytes} (hline : line ≠ []) (hfits : line.length ≤ room) :
    cut room line = [⟨[], line⟩] := by
  have hpos : 0 < line.length := List.length_pos_iff.mpr hline
  have hcount : (line.length + (room - 1)) / room = 1 :=
    Nat.div_eq_of_lt_le (by omega) (by omega)
  simp [cut, hcount, List.take_of_length_le hfits]

/-- A line that is longer than the limit is read in part, and the rest of it is the next
line. -/
theorem readUpTo_of_lt {room : Nat} {s : Bytes} (h : room < (readLine s).1.length) :
    readUpTo room s = ((readLine s).1.take room, s.drop room) ∧
      readLine (s.drop room) = ((readLine s).1.drop room, (readLine s).2) := by
  induction room generalizing s with
  | zero => simp [readUpTo]
  | succ room ih =>
    cases s with
    | nil => simp [readLine] at h
    | cons b s =>
      rw [readLine] at h ⊢
      rw [readUpTo]
      split_ifs with hb
      · simp [hb] at h
      · rw [if_neg hb, List.length_cons] at h
        have hrec := ih (Nat.lt_of_succ_lt_succ h)
        simp [hrec]

/-- Through a buffer with room for `room` bytes, each line of a file is read in pieces. -/
theorem fgetsAll_eq_cut {room fuel : Nat} {s : Bytes} (hroom : 0 < room)
    (hfuel : s.length ≤ fuel) :
    fgetsAll (room + 1) fuel s = ((fileLines s).flatMap (cut room)).map Piece.buf := by
  induction fuel generalizing s with
  | zero =>
    obtain rfl := List.eq_nil_of_length_eq_zero (Nat.le_zero.mp hfuel)
    rfl
  | succ fuel ih =>
    rw [fgetsAll, fgets]
    by_cases hs : s = []
    · simp [hs, fileLines]
    have hne : (readLine s).1 ≠ [] := by
      cases s with
      | nil => exact absurd rfl hs
      | cons b s =>
        rw [readLine]
        split_ifs <;> simp
    have hlt := readLine_snd_length_lt hs
    rw [if_neg hs, fileLines_eq_cons hs, List.flatMap_cons, List.map_append, Nat.add_sub_cancel]
    rcases Nat.lt_or_ge room (readLine s).1.length with hlong | hfits
    -- the line goes on behind the buffer
    · obtain ⟨hread, hrest⟩ := readUpTo_of_lt hlong
      have hdrop : s.drop room ≠ [] := by
        intro h
        rw [h] at hrest
        have hnil := congrArg (List.length ∘ Prod.fst) hrest
        simp only [Function.comp_apply, readLine, List.length_nil, List.length_drop] at hnil
        omega
      have hshort : (s.drop room).length ≤ fuel := by
        rw [List.length_drop]
        omega
      rw [hread, map_buf_cut hroom hne, List.cons_append]
      dsimp only
      rw [ih hshort, fileLines_eq_cons hdrop, hrest, List.flatMap_cons, List.map_append]
    -- the line ends in the buffer
    · rw [readUpTo_eq_readLine hfits hroom, cut_of_fits hne hfits]
      dsimp only
      rw [ih (by omega)]
      rfl

end Libc
