import Rblpolicyd.Config.Grammar
import Rblpolicyd.Libc.Printf

/-!
# Printing the list of blacklists

`cfg_dump` prints a list between two tags, a line for each entry: the domain, padded to 40
bytes, a blank, and the weight, right-aligned in three. Without the tags that is a
configuration file, and `cfg_read` makes the same list of it.

## Main definitions

* `dumpLine`, `cfgDumpLoop`, `cfgDump` — one line, the lines of a list, the whole output
* `Cfgitem.Dumpable` — an entry that a line can hold

## Main results

* `cfgDumpLoop_of_isList` — what the loop prints is a line for each cell of the list
* `Cfgitem.Dumpable.isEntry` — a line is in the grammar of the file
* `cfgRead_cfgDumpLoop` — the lines of a list read back as the list
-/

namespace Rblpolicyd

open Libc

/-- `printf("%-40s %3hd\n", item->rbldomain, item->weight)`. -/
def dumpLine (item : Cfgitem) : Bytes :=
  (printf (ascii "%-40s %3hd\n") [.string item.rbldomain, .int item.weight]).getD []

/-- The loop of `cfg_dump`, from a pointer on. -/
def cfgDumpLoop (heap : CfgHeap) : Nat → Option Nat → Bytes
  | 0, _ => []
  | _ + 1, none => []
  | fuel + 1, some item =>
    match heap.read item with
    | none => []
    | some node => dumpLine node.val ++ cfgDumpLoop heap fuel node.next

/-- `cfg_dump`. -/
def cfgDump (heap : CfgHeap) (item : Option Nat) : Bytes :=
  ascii "<rblservers>\n" ++ cfgDumpLoop heap heap.cells.length item ++ ascii "</rblservers>\n"

/-- An entry that a line of the file can hold: the domain is not empty and has no white space,
`#` or NUL, the weight is one of `cfg_read`, and the line fits its buffer. -/
structure Cfgitem.Dumpable (item : Cfgitem) : Prop where
  domain_ne_nil : item.rbldomain ≠ []
  domain_plain : ∀ b ∈ item.rbldomain, isspace b = false ∧ b ≠ hash ∧ b ≠ nul
  weight_pos : 1 ≤ item.weight
  weight_le : item.weight ≤ shrtMax
  fits : (dumpLine item).length ≤ 1022

/-- The blanks between the domain and the weight. -/
def dumpGap (item : Cfgitem) : Bytes :=
  List.replicate (40 - item.rbldomain.length) 32 ++
    32 :: List.replicate (3 - (printInt (toInt16 item.weight)).length) 32

/-- The line of an entry, without its newline. -/
def dumpText (item : Cfgitem) : Bytes :=
  item.rbldomain ++ dumpGap item ++ printInt (toInt16 item.weight)

variable {item : Cfgitem} {heap : CfgHeap} {first : Option Nat} {cells : List (Nat × Cfgitem)}

/-! ### The output -/

theorem dumpLine_eq (item : Cfgitem) : dumpLine item = dumpText item ++ [lf] := by
  have hexpand : ∀ render, expand render (ascii "%-40s %3hd\n") =
      some (render 0 ⟨ascii "-", ascii "40", none, [], 115⟩ ++
        32 :: (render 1 ⟨[], ascii "3", none, ascii "h", 100⟩ ++ [lf]), 2) := fun render => rfl
  have hforty : decimalValue (ascii "40") = 40 := rfl
  have hthree : decimalValue (ascii "3") = 3 := rfl
  have hminus : (45 : UInt8) ∈ ascii "-" := by decide
  rw [dumpLine, printf, hexpand]
  simp [renderArguments, Conversion.write, Conversion.pad, hforty, hthree, hminus, dumpText,
    dumpGap]

/-- The loop prints a line for each cell of a list. -/
theorem cfgDumpLoop_of_isList {fuel : Nat} (hlist : heap.IsList first cells)
    (hfuel : cells.length ≤ fuel) :
    cfgDumpLoop heap fuel first = ((cells.map Prod.snd).map dumpLine).flatten := by
  induction fuel generalizing first cells with
  | zero =>
    obtain rfl := List.eq_nil_of_length_eq_zero (Nat.le_zero.mp hfuel)
    rfl
  | succ fuel ih =>
    cases cells with
    | nil =>
      obtain rfl : first = none := hlist
      rfl
    | cons c rest =>
      obtain ⟨rfl, next, hread, hrest⟩ := hlist
      simp only [cfgDumpLoop, hread]
      rw [ih hrest (Nat.le_of_succ_le_succ hfuel)]
      rfl

/-! ### A line of the output -/

/-- A weight is printed as the number it is. -/
theorem Cfgitem.Dumpable.printInt_weight (h : item.Dumpable) :
    printInt (toInt16 item.weight) = decimal item.weight.natAbs := by
  have hpos := h.weight_pos
  have hle := h.weight_le
  have hshort : toInt16 item.weight = item.weight := by
    simp only [shrtMax] at hle
    exact Int.bmod_eq_of_le (by norm_num; omega) (by norm_num; omega)
  rw [hshort, printInt, if_neg (by omega)]

theorem isspace_of_mem_dumpGap : ∀ b ∈ dumpGap item, b = 32 := by
  intro b hb
  rcases List.mem_append.mp hb with hb | hb
  · exact List.eq_of_mem_replicate hb
  · rcases List.mem_cons.mp hb with rfl | hb
    · rfl
    · exact List.eq_of_mem_replicate hb

/-- The bytes of a line: no newline, no `#` and no NUL. -/
theorem Cfgitem.Dumpable.text_plain (h : item.Dumpable) {b : UInt8} (hb : b ∈ dumpText item) :
    b ≠ lf ∧ b ≠ hash ∧ b ≠ nul := by
  rw [dumpText, h.printInt_weight] at hb
  rcases List.mem_append.mp hb with hb | hb
  · rcases List.mem_append.mp hb with hb | hb
    · obtain ⟨hspace, hhash, hnul⟩ := h.domain_plain b hb
      refine ⟨?_, hhash, hnul⟩
      rintro rfl
      exact absurd hspace (by decide)
    · obtain rfl := isspace_of_mem_dumpGap b hb
      decide
  · obtain ⟨hlow, hhigh⟩ := decimal_isDigit hb
    have hne : ∀ c : UInt8, c < 48 → b ≠ c := by
      rintro c hc rfl
      exact absurd hlow (UInt8.not_le.mpr hc)
    exact ⟨hne lf (by decide), hne hash (by decide), hne nul (by decide)⟩

/-- Trimming a line only takes its newline off. -/
theorem Cfgitem.Dumpable.strippedLine_eq (h : item.Dumpable) :
    strippedLine (dumpText item ++ [lf]) = dumpText item := by
  have hall : ∀ b ∈ dumpText item ++ [lf], decide (b ≠ hash) = true := by
    intro b hb
    rcases List.mem_append.mp hb with hb | hb
    · simpa using (h.text_plain hb).2.1
    · obtain rfl := List.mem_singleton.mp hb
      decide
  have hcut : (dumpText item ++ [lf]).takeWhile (· ≠ hash) = dumpText item ++ [lf] :=
    List.takeWhile_eq_self_iff.mpr hall
  rw [strippedLine, hcut, List.rdropWhile_concat_pos isspace (dumpText item) lf (by decide)]
  -- the last byte is a digit
  have hpos : 0 < item.weight.natAbs := by
    have hweight := h.weight_pos
    omega
  obtain ⟨d, s, -, -, heq⟩ := exists_decimal_eq_cons hpos
  have hdigits : decimal item.weight.natAbs ≠ [] := by simp [heq]
  apply List.rdropWhile_eq_self_iff.mpr
  intro hne
  have hlast : (dumpText item).getLast hne = (decimal item.weight.natAbs).getLast hdigits := by
    simp only [dumpText, h.printInt_weight]
    exact List.getLast_append_of_ne_nil _ hdigits
  obtain ⟨hlow, hhigh⟩ := decimal_isDigit (List.getLast_mem hdigits)
  rw [hlast]
  generalize (decimal item.weight.natAbs).getLast hdigits = b at hlow hhigh
  have hlow' : 48 ≤ b.toNat := UInt8.le_iff_toNat_le.mp hlow
  simp only [isspace, Bool.or_eq_true, beq_iff_eq, Bool.and_eq_true, decide_eq_true_eq, not_or,
    not_and]
  constructor
  · rintro rfl
    exact absurd hlow (by decide)
  · intro _ hle
    have hle' : b.toNat ≤ 13 := UInt8.le_iff_toNat_le.mp hle
    omega

/-- A line is in the grammar of the file. -/
theorem Cfgitem.Dumpable.isEntry (h : item.Dumpable) :
    IsEntry (dumpText item) item.rbldomain item.weight := by
  have hpos := h.weight_pos
  have hle := h.weight_le
  refine ⟨h.domain_ne_nil, fun b hb => (h.domain_plain b hb).1, hpos, hle, ?_⟩
  refine ⟨[], dumpGap item, decimal item.weight.natAbs, ?_, by simp, by simp [dumpGap], ?_, ?_⟩
  · rw [dumpText, h.printInt_weight, List.nil_append]
  · intro b hb
    rw [isspace_of_mem_dumpGap b hb]
    rfl
  · simp only [shrtMax] at hle
    have hread := strtol0_decimal (n := item.weight.natAbs) (by omega) (by
      simp only [longMax]
      omega)
    rw [hread]
    congr 1
    omega

/-! ### Reading the output -/

/-- The lines of some entries, read as a file. -/
theorem mapM_lineEntry_dumpLine {items : List Cfgitem} (h : ∀ item ∈ items, item.Dumpable) :
    (bufferLines (items.map dumpLine).flatten).mapM lineEntry =
      some (items.map fun item => (item.rbldomain, item.weight)) := by
  have hmap : items.map dumpLine = (items.map dumpText).map (· ++ [lf]) := by
    rw [List.map_map]
    exact List.map_congr_left fun item _ => dumpLine_eq item
  have hlines : fileLines (items.map dumpLine).flatten = items.map dumpLine := by
    rw [hmap]
    apply fileLines_flatten
    intro text htext hmem
    obtain ⟨item, hitem, rfl⟩ := List.mem_map.mp htext
    exact ((h item hitem).text_plain hmem).1 rfl
  have hnul : nul ∉ (items.map dumpLine).flatten := by
    intro hmem
    obtain ⟨line, hline, hb⟩ := List.mem_flatten.mp hmem
    obtain ⟨item, hitem, rfl⟩ := List.mem_map.mp hline
    rw [dumpLine_eq] at hb
    rcases List.mem_append.mp hb with hb | hb
    · exact ((h item hitem).text_plain hb).2.2 rfl
    · exact absurd (List.mem_singleton.mp hb) (by decide)
  have hfit : ∀ line ∈ fileLines (items.map dumpLine).flatten, line.length ≤ 1022 := by
    rw [hlines]
    intro line hline
    obtain ⟨item, hitem, rfl⟩ := List.mem_map.mp hline
    exact (h item hitem).fits
  have hstripped : (items.map dumpLine).map strippedLine = items.map dumpText := by
    rw [List.map_map]
    apply List.map_congr_left
    intro item hitem
    rw [Function.comp_apply, dumpLine_eq]
    exact (h item hitem).strippedLine_eq
  have hne : ∀ text ∈ items.map dumpText, decide (text ≠ []) = true := by
    intro text htext
    obtain ⟨item, hitem, rfl⟩ := List.mem_map.mp htext
    simp [dumpText, (h item hitem).domain_ne_nil]
  rw [bufferLines, fileBuffers_eq_configLines hnul hfit, configLines, hlines, hstripped,
    List.filter_eq_self.mpr hne, mapM_lineEntry_eq_some_iff, List.forall₂_map_left_iff,
    List.forall₂_map_right_iff, List.forall₂_same]
  exact fun item hitem => (h item hitem).isEntry

/-- **The lines of a list read back as the list.** The entries of any list in memory, printed
by `cfg_dump` and read by `cfg_read` into any memory, have the same domains and weights in the
same order. -/
theorem cfgRead_cfgDumpLoop (hlist : heap.IsList first cells)
    (hdumpable : ∀ c ∈ cells, c.2.Dumpable) (heap' : CfgHeap) :
    ∃ cells', (cfgRead (fun _ => true) heap'
          (some (cfgDumpLoop heap heap.cells.length first))).2.IsList
        (cfgRead (fun _ => true) heap' (some (cfgDumpLoop heap heap.cells.length first))).1
        cells' ∧
      cells'.map (fun c => (c.2.rbldomain, c.2.weight)) =
        cells.map fun c => (c.2.rbldomain, c.2.weight) := by
  have hall : ∀ item ∈ cells.map Prod.snd, item.Dumpable := by
    intro item hitem
    obtain ⟨c, hc, rfl⟩ := List.mem_map.mp hitem
    exact hdumpable c hc
  rw [cfgDumpLoop_of_isList hlist hlist.length_le]
  obtain ⟨cells', hlist', hvals⟩ := cfgRead_of_entries heap' (mapM_lineEntry_dumpLine hall)
  refine ⟨cells', hlist', ?_⟩
  have hpairs := congrArg (List.map fun item : Cfgitem => (item.rbldomain, item.weight)) hvals
  simpa [Function.comp_def, freshItem] using hpairs

/-- A list of two entries, one with a domain that is longer than its column. -/
def dumpedHeap : CfgHeap :=
  ⟨[some ⟨⟨ascii "bl.spamcop.net", 70, 0, 0⟩, some 1⟩,
    some ⟨⟨ascii "a-very-long-label.of-a-blacklist.example.org", 32767, 0, 0⟩, none⟩]⟩

/-- It reads back. -/
theorem cfgRead_cfgDumpLoop_dumpedHeap :
    ∃ cells', (cfgRead (fun _ => true) Heap.empty
          (some (cfgDumpLoop dumpedHeap dumpedHeap.cells.length (some 0)))).2.IsList
        (cfgRead (fun _ => true) Heap.empty
          (some (cfgDumpLoop dumpedHeap dumpedHeap.cells.length (some 0)))).1 cells' ∧
      cells'.map (fun c => (c.2.rbldomain, c.2.weight)) =
        [(ascii "bl.spamcop.net", 70),
          (ascii "a-very-long-label.of-a-blacklist.example.org", 32767)] := by
  have hlist : dumpedHeap.IsList (some 0)
      [(0, ⟨ascii "bl.spamcop.net", 70, 0, 0⟩),
        (1, ⟨ascii "a-very-long-label.of-a-blacklist.example.org", 32767, 0, 0⟩)] :=
    ⟨rfl, some 1, rfl, rfl, none, rfl, rfl⟩
  refine cfgRead_cfgDumpLoop hlist ?_ Heap.empty
  intro c hc
  rcases List.mem_cons.mp hc with rfl | hc
  · exact ⟨by decide +kernel, by decide +kernel, by decide, by decide, by decide +kernel⟩
  · obtain rfl := List.mem_singleton.mp hc
    exact ⟨by decide +kernel, by decide +kernel, by decide, by decide, by decide +kernel⟩

end Rblpolicyd
