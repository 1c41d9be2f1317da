import Rblpolicyd.Libc.Block
import Rblpolicyd.Libc.Numerals
import Rblpolicyd.Semantics.Run

/-!
# Reading a request from its connection

`read_request` waits for the connection, makes room in a buffer that grows by
1024 bytes, reads what fits before the last byte of the buffer, and ends when the
text ends in two line ends of the same kind. `worker.c` and `server.c` hold the
same code. One iteration of its loop is one step here; what `select`, `realloc`
and `read` do is part of the step, and every byte of the buffer that the
iteration reads or writes is recorded with the size the buffer has then.

## Main definitions

* `SelectOutcome`, `ReadOutcome` — what the calls of one iteration return
* `Receiver`, `Receiver.step` — the variables of the loop and one iteration
* `Receiver.Holds` — the invariant: the buffer holds what was read and has room left

## Main results

* `Receiver.grow_spec` — the room each read is given
* `Receiver.receive_spec` — what one successful read leaves
* `Receiver.Holds.step_cases` — what one iteration does
-/

namespace Rblpolicyd

open Libc

/-- An access to the byte at `index` of a buffer of `size` bytes. -/
structure Access where
  index : Int
  size : Int
  deriving DecidableEq

/-- The byte belongs to the buffer. -/
def Access.Inside (a : Access) : Prop := 0 ≤ a.index ∧ a.index < a.size

instance (a : Access) : Decidable a.Inside :=
  inferInstanceAs (Decidable (0 ≤ a.index ∧ a.index < a.size))

/-- The outcome of `read`. -/
inductive ReadOutcome
  | error
  | endOfFile
  | data (bytes : Bytes)

/-- The outcome of `select` and, when it says that there is something to read, of the
`realloc` (if one is needed) and the `read` that follow. -/
inductive SelectOutcome
  | error
  | timeout
  | ready (block : Option Block) (outcome : ReadOutcome)

/-- The variables of `read_request`, and the accesses to the buffer so far. `returned`
is the result of the function: `none` while it runs. -/
structure Receiver where
  buf : Option Block
  bufsize : Int
  bread : Int
  returned : Option (Option Block)
  accesses : List Access

/-- The steps by which the buffer grows. -/
def CHUNK : Int := 1024

/-- The first comparison. -/
def crlfTwice : Bytes := ascii "\r\n\r\n"

/-- The second comparison. -/
def lfTwice : Bytes := ascii "\n\n"

namespace Receiver

/-- The variables at the start of the loop. -/
def initial : Receiver where
  buf := none
  bufsize := 0
  bread := 0
  returned := none
  accesses := []

/-- Record accesses to bytes of the buffer. -/
def access (r : Receiver) (indices : List Int) : Receiver :=
  { r with accesses := r.accesses ++ indices.map fun i => ⟨i, r.bufsize⟩ }

/-- `return buf;` -/
def finish (r : Receiver) : Receiver := { r with returned := some r.buf }

/-- `buf[bread] = '\0';` -/
def terminate (r : Receiver) : Receiver :=
  { r with buf := r.buf.map fun b : Block => b.store r.bread.toNat nul }.access [r.bread]

/-- The exits on a timeout and on a failed read:
`if (buf && bufsize > bread) buf[bread] = '\0'; return buf;` -/
def giveUp (r : Receiver) : Receiver :=
  if r.buf.isSome ∧ r.bread < r.bufsize then r.terminate.finish else r.finish

/-- `bufsize += CHUNK; buf = realloc(buf, bufsize)` when less than a chunk is free,
`none` if the buffer is then null. The sum is that of two `int`s. -/
def grow (block : Option Block) (r : Receiver) : Option Receiver :=
  if r.bufsize - r.bread < CHUNK then
    (Block.realloc r.buf r.bufsize.toNat block (toInt32 (r.bufsize + CHUNK))).map fun b =>
      { r with buf := some b, bufsize := toInt32 (r.bufsize + CHUNK) }
  else some r

/-- The number of bytes asked for: `bufsize - bread - 1`. -/
def request (r : Receiver) : Int := r.bufsize - r.bread - 1

/-- The bytes that `read` puts behind those read before, and `bread += ret`. -/
def readInto (data : Bytes) (r : Receiver) : Receiver :=
  { r with
    buf := r.buf.map fun b : Block => b.fill r.bread.toNat data
    bread := r.bread + data.length }.access
      ((List.range data.length).map fun k : Nat => r.bread + k)

/-- `strcmp(buf + bread - back, text) == 0`. C gives no meaning to a comparison that
starts before the buffer; `stray` is what it yields. -/
def compare (stray : Int → Bytes → Bool) (back : Int) (text : Bytes) (r : Receiver) : Bool :=
  match r.buf with
  | some b =>
    if r.bread - back < 0 then stray (r.bread - back) text
    else b.strcmpEq (r.bread - back).toNat text
  | none => stray (r.bread - back) text

/-- The bytes that this comparison reads; of a stray one the first. -/
def compareReads (back : Int) (text : Bytes) (r : Receiver) : List Int :=
  match r.buf with
  | some b =>
    if r.bread - back < 0 then [r.bread - back]
    else (b.strcmpReads (r.bread - back).toNat text).map fun k : Nat => (k : Int)
  | none => [r.bread - back]

/-- The iteration behind a successful `read`: the text is closed and both comparisons
are made, the second one when the first fails. -/
def receive (stray : Int → Bytes → Bool) (data : Bytes) (r : Receiver) : Receiver :=
  let r := (r.readInto data).terminate
  let first := r.access (r.compareReads 4 crlfTwice)
  if r.compare stray 4 crlfTwice then first.finish
  else
    let second := first.access (r.compareReads 2 lfTwice)
    if r.compare stray 2 lfTwice then second.finish else second

/-- One iteration of the loop. `none` behind a `return`, and for a `read` that delivers
nothing or more than it was asked for. -/
def step (stray : Int → Bytes → Bool) (r : Receiver) (outcome : SelectOutcome) :
    Option Receiver :=
  if r.returned.isSome then none
  else
    match outcome with
    | .error => some { r with buf := none }.finish
    | .timeout => some r.giveUp
    | .ready block outcome =>
      match r.grow block with
      | none => some { r with buf := none }.finish
      | some r =>
        match outcome with
        | .error => some r.giveUp
        | .endOfFile => some r.giveUp
        | .data bytes =>
          if 0 < bytes.length ∧ (bytes.length : Int) ≤ r.request then
            some (r.receive stray bytes)
          else none

/-! ### The loop -/

/-- The buffer holds what was read, and there is a byte left behind it; at the start
there is no buffer. -/
structure Holds (r : Receiver) (text : Bytes) : Prop where
  running : r.returned = none
  bread_eq : r.bread = text.length
  small : r.bufsize < 2 ^ 31
  room : (r.buf = none ∧ r.bufsize = 0 ∧ text = []) ∨
    ∃ b, r.buf = some b ∧ b.bytes text.length = text ∧ r.bread < r.bufsize

/-- The same in front of a read, with room for more. -/
structure Ready (r : Receiver) (text : Bytes) : Prop where
  running : r.returned = none
  bread_eq : r.bread = text.length
  small : r.bufsize < 2 ^ 31
  holds : ∃ b, r.buf = some b ∧ b.bytes text.length = text
  room : CHUNK ≤ r.bufsize - r.bread

theorem initial_holds : initial.Holds [] :=
  ⟨rfl, rfl, by decide, Or.inl ⟨rfl, rfl, rfl⟩⟩

variable {r g : Receiver} {text : Bytes} {block : Option Block}

theorem Holds.nonneg (h : r.Holds text) : 0 ≤ r.bread ∧ r.bread ≤ r.bufsize := by
  have hbread := h.bread_eq
  rcases h.room with ⟨-, hsize, rfl⟩ | ⟨b, -, -, hlt⟩
  · rw [hbread, hsize]
    exact ⟨le_refl _, le_refl _⟩
  · exact ⟨by omega, hlt.le⟩

/-- A step of growth that the type of the size holds. -/
theorem toInt32_add_CHUNK {n : Int} (h0 : 0 ≤ n) (h : n < 2 ^ 31) :
    toInt32 (n + CHUNK) < 0 ∨ toInt32 (n + CHUNK) = n + CHUNK := by
  rw [toInt32_eq, CHUNK]
  split_ifs <;> omega

theorem Ready.holds_loop (h : r.Ready text) : r.Holds text := by
  obtain ⟨b, hb, hbytes⟩ := h.holds
  have hroom := h.room
  rw [CHUNK] at hroom
  exact ⟨h.running, h.bread_eq, h.small, Or.inr ⟨b, hb, hbytes, by omega⟩⟩

/-- Growth leaves room for a chunk, or there is no buffer any more. -/
theorem Holds.grow_eq_some (h : r.Holds text) (hgrow : r.grow block = some g) :
    g.Ready text ∧ g.accesses = r.accesses := by
  obtain ⟨h0, hle⟩ := h.nonneg
  rw [grow] at hgrow
  split_ifs at hgrow with hfull
  · obtain ⟨b, hrealloc, rfl⟩ := Option.map_eq_some_iff.mp hgrow
    have hnonneg := Block.nonneg_of_realloc hrealloc
    have hsize := (toInt32_add_CHUNK (h0.trans hle) h.small).resolve_left (not_lt.mpr hnonneg)
    have hmem := toInt32_mem (r.bufsize + CHUNK)
    refine ⟨⟨h.running, h.bread_eq, hmem.2, ⟨b, rfl, ?_⟩, ?_⟩, rfl⟩
    · rcases h.room with ⟨-, -, rfl⟩ | ⟨old, hold, hbytes, hlt⟩
      · rfl
      · have hbread := h.bread_eq
        rw [hold] at hrealloc
        rw [Block.bytes_realloc (by omega) hrealloc]
        exact hbytes
    · dsimp only
      omega
  · obtain rfl := Option.some.inj hgrow
    refine ⟨⟨h.running, h.bread_eq, h.small, ?_, by omega⟩, rfl⟩
    rcases h.room with ⟨-, hsize, rfl⟩ | ⟨b, hb, hbytes, -⟩
    · -- without a buffer there is no room for a chunk
      rw [hsize, h.bread_eq] at hfull
      exact absurd (by decide) hfull
    · exact ⟨b, hb, hbytes⟩

/-- Below the range of the size, memory is all that growth needs. -/
theorem Holds.exists_grow (h : r.Holds text) (hshort : (text.length : Int) < 2 ^ 31 - 1 - 2048)
    (fresh : Block) : ∃ g, r.grow (some fresh) = some g := by
  obtain ⟨h0, hle⟩ := h.nonneg
  have hbread := h.bread_eq
  rw [grow]
  split_ifs with hfull
  · have hsize : 0 ≤ toInt32 (r.bufsize + CHUNK) := by
      rw [CHUNK] at hfull
      rw [toInt32_eq, CHUNK]
      split_ifs <;> omega
    rw [Block.realloc, if_neg (not_lt.mpr hsize)]
    exact ⟨_, rfl⟩
  · exact ⟨_, rfl⟩

/-! ### One read -/

/-- What the two comparisons say of the text read so far. -/
def Closed (stray : Int → Bytes → Bool) (text : Bytes) : Prop :=
  (if text.length < 4 then stray ((text.length : Int) - 4) crlfTwice = true
    else crlfTwice <:+ text) ∨
  (if text.length < 2 then stray ((text.length : Int) - 2) lfTwice = true
    else lfTwice <:+ text)

/-- The buffer holds a closed string. -/
structure Filled (r : Receiver) (text : Bytes) : Prop where
  bread_eq : r.bread = text.length
  holds : ∃ b, r.buf = some b ∧ b.bytes text.length = text ∧ b text.length = nul

theorem Filled.compare_iff (h : r.Filled text) (stray : Int → Bytes → Bool) (back : Nat)
    (pattern : Bytes) (hback : pattern.length = back) :
    r.compare stray back pattern = true ↔
      if text.length < back then stray ((text.length : Int) - back) pattern = true
      else pattern <:+ text := by
  obtain ⟨b, hb, hbytes, hnul⟩ := h.holds
  rw [compare, hb, h.bread_eq]
  by_cases hshort : text.length < back
  · rw [if_pos hshort]
    dsimp only
    rw [if_pos (by omega)]
  · rw [if_neg hshort]
    dsimp only
    rw [if_neg (by omega), Block.strcmpEq_iff (by omega) hnul, hbytes]

/-- A comparison that starts in the buffer stays in it. -/
theorem Filled.compareReads_inside (h : r.Filled text) (hsize : r.bread < r.bufsize)
    (back : Nat) {pattern : Bytes} (hback : pattern.length = back) (hlong : back ≤ text.length) :
    ∀ i ∈ r.compareReads back pattern, 0 ≤ i ∧ i < r.bufsize := by
  obtain ⟨b, hb, -, -⟩ := h.holds
  have hbread := h.bread_eq
  rw [compareReads, hb]
  dsimp only
  rw [if_neg (by omega)]
  intro i hi
  obtain ⟨k, hk, rfl⟩ := List.mem_map.mp hi
  have hle := Block.strcmpReads_le hk
  omega

/-- A comparison of too short a text starts before the buffer. -/
theorem Filled.compareReads_stray (h : r.Filled text) (back : Nat) (pattern : Bytes)
    (hshort : text.length < back) :
    r.compareReads back pattern = [(text.length : Int) - back] := by
  obtain ⟨b, hb, -, -⟩ := h.holds
  have hbread := h.bread_eq
  rw [compareReads, hb]
  dsimp only
  rw [if_pos (by omega), hbread]

/-- The bytes of a read stand behind those read before, and the string is closed. -/
theorem Ready.filled (h : r.Ready text) (bytes : Bytes) :
    (r.readInto bytes).terminate.Filled (text ++ bytes) := by
  obtain ⟨b, hb, hbytes⟩ := h.holds
  have hbread := h.bread_eq
  have hlength : (r.readInto bytes).bread = ((text ++ bytes).length : Int) := by
    rw [List.length_append, Nat.cast_add, ← hbread]
    rfl
  refine ⟨hlength, (b.fill text.length bytes).store (text ++ bytes).length nul, ?_, ?_, ?_⟩
  · change ((r.buf.map _).map fun b : Block => b.store (r.readInto bytes).bread.toNat nul) = _
    rw [hlength, hb, hbread]
    rfl
  · rw [Block.bytes_store (le_refl _), List.length_append, Block.bytes_fill, hbytes]
  · exact Block.store_self _ _ _

/-- The iteration behind a read ends the loop when the text is closed. -/
theorem Ready.receive_spec (h : r.Ready text) (stray : Int → Bytes → Bool) {bytes : Bytes}
    (hfits : (bytes.length : Int) ≤ r.request) :
    (Closed stray (text ++ bytes) ∧ ∃ b, (r.receive stray bytes).returned = some (some b) ∧
        b.bytes (text ++ bytes).length = text ++ bytes ∧ b (text ++ bytes).length = nul) ∨
      (¬ Closed stray (text ++ bytes) ∧ (r.receive stray bytes).Holds (text ++ bytes)) := by
  have hfilled := h.filled bytes
  have hfirst := hfilled.compare_iff stray 4 crlfTwice rfl
  have hsecond := hfilled.compare_iff stray 2 lfTwice rfl
  obtain ⟨b, hb, hbytes, hnul⟩ := hfilled.holds
  rw [receive]
  dsimp only
  split_ifs with h4 h2
  · left
    exact ⟨Or.inl (hfirst.mp h4), b, congrArg some hb, hbytes, hnul⟩
  · left
    exact ⟨Or.inr (hsecond.mp h2), b, congrArg some hb, hbytes, hnul⟩
  · right
    refine ⟨?_, ⟨h.running, hfilled.bread_eq, h.small, Or.inr ⟨b, hb, hbytes, ?_⟩⟩⟩
    · rintro (hclosed | hclosed)
      · exact h4 (hfirst.mpr hclosed)
      · exact h2 (hsecond.mpr hclosed)
    · have hbread : r.bread + bytes.length < r.bufsize := by
        rw [request] at hfits
        omega
      exact hbread

/-- What was read leaves a byte of the buffer free. -/
theorem Ready.bread_receive (h : r.Ready text) (stray : Int → Bytes → Bool) {bytes : Bytes}
    (hfits : (bytes.length : Int) ≤ r.request) :
    0 ≤ (r.receive stray bytes).bread ∧
      (r.receive stray bytes).bread < (r.receive stray bytes).bufsize := by
  have hbread := h.bread_eq
  have hlt : 0 ≤ r.bread + (bytes.length : Int) ∧ r.bread + bytes.length < r.bufsize := by
    rw [request] at hfits
    omega
  rw [receive]
  dsimp only
  split_ifs <;> exact hlt

/-! ### Accesses to the buffer -/

/-- Every access so far was to a byte of the buffer. -/
def Inside (r : Receiver) : Prop := ∀ a ∈ r.accesses, a.Inside

theorem inside_access_iff {indices : List Int} :
    (r.access indices).Inside ↔ r.Inside ∧ ∀ i ∈ indices, 0 ≤ i ∧ i < r.bufsize := by
  constructor
  · intro h
    refine ⟨fun a ha => h a (List.mem_append_left _ ha), fun i hi => ?_⟩
    exact h ⟨i, r.bufsize⟩ (List.mem_append_right _ (List.mem_map_of_mem hi))
  · rintro ⟨h, hi⟩ a ha
    rcases List.mem_append.mp ha with ha | ha
    · exact h a ha
    · obtain ⟨i, hmem, rfl⟩ := List.mem_map.mp ha
      exact hi i hmem

theorem inside_finish_iff : r.finish.Inside ↔ r.Inside := Iff.rfl

/-- A NUL is stored into the buffer when there is a byte left. -/
theorem inside_terminate_iff (h0 : 0 ≤ r.bread) (hlt : r.bread < r.bufsize) :
    r.terminate.Inside ↔ r.Inside := by
  refine inside_access_iff.trans (and_iff_left ?_)
  intro i hi
  obtain rfl := List.mem_singleton.mp hi
  exact ⟨h0, hlt⟩

/-- The exits on a timeout and on a failed read stay in the buffer. -/
theorem Holds.inside_giveUp_iff (h : r.Holds text) : r.giveUp.Inside ↔ r.Inside := by
  rw [giveUp]
  split_ifs with hroom
  · exact inside_finish_iff.trans (inside_terminate_iff h.nonneg.1 hroom.2)
  · exact inside_finish_iff

/-- A read that gets no more than it asked for stays in the buffer, and so does the NUL. -/
theorem Ready.inside_filled_iff (h : r.Ready text) {bytes : Bytes}
    (hfits : (bytes.length : Int) ≤ r.request) :
    (r.readInto bytes).terminate.Inside ↔ r.Inside := by
  have hbread := h.bread_eq
  rw [request] at hfits
  have hend : 0 ≤ r.bread + (bytes.length : Int) ∧ r.bread + bytes.length < r.bufsize := by
    omega
  refine (inside_terminate_iff hend.1 hend.2).trans ?_
  refine inside_access_iff.trans (and_iff_left ?_)
  intro i hi
  obtain ⟨k, hk, rfl⟩ := List.mem_map.mp hi
  have hlt := List.mem_range.mp hk
  have hsize : r.bread + k < r.bufsize := by omega
  exact ⟨by omega, hsize⟩

/-- An iteration that reads stays in the buffer exactly when it leaves at least the four
bytes that the first comparison goes back. -/
theorem Ready.inside_receive_iff (h : r.Ready text) (stray : Int → Bytes → Bool)
    {bytes : Bytes} (hfits : (bytes.length : Int) ≤ r.request) :
    (r.receive stray bytes).Inside ↔ r.Inside ∧ 4 ≤ (text ++ bytes).length := by
  have hfilled := h.filled bytes
  have hsize : (r.readInto bytes).terminate.bread < (r.readInto bytes).terminate.bufsize := by
    have hbread : r.bread + bytes.length < r.bufsize := by
      rw [request] at hfits
      omega
    exact hbread
  have hfirst : ((r.readInto bytes).terminate.access
      ((r.readInto bytes).terminate.compareReads 4 crlfTwice)).Inside ↔
        r.Inside ∧ 4 ≤ (text ++ bytes).length := by
    rw [inside_access_iff, h.inside_filled_iff hfits]
    refine and_congr_right fun _ => ⟨fun hall => ?_, fun hlong => ?_⟩
    · by_contra hshort
      have hstray := hfilled.compareReads_stray 4 crlfTwice (by omega)
      have hneg := hall _ (hstray ▸ List.mem_singleton_self _)
      omega
    · exact hfilled.compareReads_inside hsize 4 rfl hlong
  rw [receive]
  dsimp only
  split_ifs with h4 h2
  · exact hfirst
  all_goals
    refine ⟨fun hall => hfirst.mp (inside_access_iff.mp hall).1, fun hlong => ?_⟩
    refine inside_access_iff.mpr ⟨hfirst.mpr hlong, ?_⟩
    exact hfilled.compareReads_inside hsize 2 rfl (by omega)

/-! ### One iteration -/

variable {stray : Int → Bytes → Bool} {outcome : SelectOutcome} {r' : Receiver}

/-- An iteration reads and looks at what it has, or it returns without a comparison. -/
theorem Holds.step_cases (h : r.Holds text) (hstep : r.step stray outcome = some r') :
    (∃ block bytes, ∃ g : Receiver, outcome = .ready block (.data bytes) ∧
        r.grow block = some g ∧ 0 < bytes.length ∧ (bytes.length : Int) ≤ g.request ∧
        r' = g.receive stray bytes) ∨
      ((∀ block bytes, outcome = .ready block (.data bytes) → r.grow block = none) ∧
        r'.returned.isSome ∧ (r'.Inside ↔ r.Inside)) := by
  have hgiveUp : ∀ g : Receiver, g.giveUp.returned.isSome := by
    intro g
    rw [giveUp]
    split_ifs <;> rfl
  have hrunning : ¬ r.returned.isSome := by rw [h.running]; simp
  unfold step at hstep
  rw [if_neg hrunning] at hstep
  cases outcome with
  | error =>
    obtain rfl := Option.some.inj hstep
    exact Or.inr ⟨by simp, rfl, Iff.rfl⟩
  | timeout =>
    obtain rfl := Option.some.inj hstep
    exact Or.inr ⟨by simp, hgiveUp r, h.inside_giveUp_iff⟩
  | ready block outcome =>
    dsimp only at hstep
    cases hgrow : r.grow block with
    | none =>
      rw [hgrow] at hstep
      obtain rfl := Option.some.inj hstep
      refine Or.inr ⟨fun b bytes houtcome => ?_, rfl, Iff.rfl⟩
      obtain ⟨rfl, -⟩ := SelectOutcome.ready.inj houtcome
      exact hgrow
    | some g =>
      obtain ⟨hready, haccesses⟩ := h.grow_eq_some hgrow
      have hinside : g.giveUp.Inside ↔ r.Inside := by
        rw [hready.holds_loop.inside_giveUp_iff, Inside, Inside, haccesses]
      rw [hgrow] at hstep
      cases outcome with
      | error =>
        obtain rfl := Option.some.inj hstep
        exact Or.inr ⟨by simp, hgiveUp g, hinside⟩
      | endOfFile =>
        obtain rfl := Option.some.inj hstep
        exact Or.inr ⟨by simp, hgiveUp g, hinside⟩
      | data bytes =>
        obtain ⟨⟨hpos, hfits⟩, hreceive⟩ := Option.ite_none_right_eq_some.mp hstep
        obtain rfl := Option.some.inj hreceive
        exact Or.inl ⟨block, bytes, g, rfl, hgrow, hpos, hfits, rfl⟩

end Receiver

end Rblpolicyd
