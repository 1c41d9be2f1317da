import Mathlib.Algebra.Order.BigOperators.Group.List
import Rblpolicyd.Config.LongLines
import Rblpolicyd.Session.Sequential

/-!
# The sum of the scores and the range of an `int`

`cfg_read` bounds each weight by `SHRT_MAX` but not their number, and a worker adds up the
scores of all blacklists, where `process_request` stops at 100. The sum of a worker stays in
an `int` for every set of answers exactly when the weights of the file have a sum that does.

## Main definitions

* `scoreSums` — the values of `score + resdata[i]->score`, before they are stored
* `ScoreSafe` — no sum leaves an `int`, and more hits keep a rejection
* `ScoreSafeFile` — the same for the list that a file is read as

## Main results

* `scoreSums_le_iff` — the sums stay in an `int` exactly when the last one does
* `scoreSafeFile_iff` — for which files the score does not overflow
* `processLoop_score_le` — the score of `process_request` never gets there
-/

namespace Rblpolicyd

open Libc

/-- The sums that the loop over the records computes, before they are stored into `score`. -/
def scoreSums : Tally → List (Bytes × Int) → List Int
  | _, [] => []
  | t, r :: records =>
    (if r.2 ≠ 0 then [t.score + r.2] else []) ++ scoreSums (tallyItem t r.1 r.2) records

/-- With the blacklists of a list, whichever of them list the client, no sum is above `INT_MAX`,
and a client that is rejected is rejected with more hits as well. -/
structure ScoreSafe (items : List Cfgitem) : Prop where
  sums : ∀ job : Job, job.rblist = items →
    ∀ v ∈ scoreSums Tally.init (finalScores job), v ≤ 2 ^ 31 - 1
  rejected : ∀ job more : Job, job.rblist = items → more.rblist = items →
    (∀ j, Listed (job.answer j) → Listed (more.answer j)) →
    100 ≤ (tallyAll (finalScores job)).score → 100 ≤ (tallyAll (finalScores more)).score

/-- The score is safe with every list that the file is read as. -/
def ScoreSafeFile (content : Bytes) : Prop :=
  ∀ (callocOk : Nat → Bool) (heap : CfgHeap) first cells,
    (cfgRead callocOk heap (some content)).1 = some first →
    (cfgRead callocOk heap (some content)).2.IsList (some first) cells →
    ScoreSafe (cells.map Prod.snd)

variable {items : List Cfgitem} {job : Job} {t : Tally}

/-! ### The sums of a loop -/

theorem totalScore_nonneg {records : List (Bytes × Int)} (h : ∀ r ∈ records, 0 ≤ r.2) :
    0 ≤ totalScore records := by
  apply List.sum_nonneg
  intro score hscore
  obtain ⟨r, hr, rfl⟩ := List.mem_map.mp hscore
  exact h r hr

/-- Scores that are not negative are added up within an `int` exactly when their sum is one. -/
theorem scoreSums_le_iff {records : List (Bytes × Int)} (hpos : ∀ r ∈ records, 0 ≤ r.2)
    (hlow : 0 ≤ t.score) (hhigh : t.score ≤ 2 ^ 31 - 1) :
    (∀ v ∈ scoreSums t records, v ≤ 2 ^ 31 - 1) ↔ t.score + totalScore records ≤ 2 ^ 31 - 1 := by
  induction records generalizing t with
  | nil => simpa [scoreSums, totalScore] using hhigh
  | cons r records ih =>
    have hr := hpos r List.mem_cons_self
    have hrest : ∀ other ∈ records, 0 ≤ other.2 :=
      fun other hother => hpos other (List.mem_cons_of_mem r hother)
    have htotal : totalScore (r :: records) = r.2 + totalScore records := by simp [totalScore]
    have hnonneg := totalScore_nonneg hrest
    rw [scoreSums, htotal]
    by_cases hfits : t.score + r.2 ≤ 2 ^ 31 - 1
    -- this sum fits: the others decide
    · have hscore : (tallyItem t r.1 r.2).score = t.score + r.2 :=
        tallyItem_score t r.1 (by omega)
      have hiff := ih (t := tallyItem t r.1 r.2) hrest (by omega) (by omega)
      rw [hscore, add_assoc] at hiff
      rw [← hiff]
      constructor
      · intro h v hv
        exact h v (List.mem_append_right _ hv)
      · intro h v hv
        rcases List.mem_append.mp hv with hv | hv
        · split_ifs at hv with hzero
          · obtain rfl := List.mem_singleton.mp hv
            exact hfits
          · cases hv
        · exact h v hv
    -- this one does not, and the later ones are not smaller
    · have hne : r.2 ≠ 0 := by omega
      rw [if_pos hne]
      constructor
      · intro h
        exact absurd (h _ (List.mem_append_left _ (List.mem_singleton_self _))) hfits
      · intro h
        omega

/-! ### The weights of a list -/

theorem finalScores_nonneg (hpos : ∀ item ∈ job.rblist, 0 < item.weight) :
    ∀ r ∈ finalScores job, 0 ≤ r.2 := by
  intro r hr
  rw [finalScores_eq] at hr
  obtain ⟨x, hx, rfl⟩ := List.mem_map.mp hr
  have hweight := hpos x.1 (List.fst_mem_of_mem_zipIdx hx)
  dsimp only
  split_ifs
  · omega
  · omega

/-- More hits weigh no less. -/
theorem listedWeight_mono {more : Job} (hitems : more.rblist = job.rblist)
    (hpos : ∀ item ∈ job.rblist, 0 < item.weight)
    (hmore : ∀ j, Listed (job.answer j) → Listed (more.answer j)) :
    listedWeight job ≤ listedWeight more := by
  have hpos' : ∀ x ∈ job.rblist.zipIdx, 0 < x.1.weight :=
    fun x hx => hpos x.1 (List.fst_mem_of_mem_zipIdx hx)
  rw [← totalScore_finalScores, ← totalScore_finalScores, finalScores_eq, finalScores_eq, hitems]
  simp only [totalScore, List.map_map]
  apply List.sum_le_sum
  intro x hx
  have hweight := hpos' x hx
  have hlisted := hmore x.2
  dsimp only [Function.comp_apply]
  split_ifs with h₁ h₂
  · exact le_rfl
  · exact absurd (hlisted h₁) h₂
  · omega
  · exact le_rfl

/-- A client that every blacklist lists. -/
def everyListed (items : List Cfgitem) : Job where
  request := ⟨none, true, true⟩
  rblist := items
  answer _ := some ⟨.inet, [⟨127, 0, 0, 2⟩]⟩

theorem listedWeight_everyListed (items : List Cfgitem) :
    listedWeight (everyListed items) = weightOf items := by
  have hlisted : Listed (some ⟨.inet, [⟨127, 0, 0, 2⟩]⟩) := by decide
  have hall : listedItems (everyListed items) = items := by
    have hfilter : ∀ x ∈ (everyListed items).rblist.zipIdx,
        decide (Listed ((everyListed items).answer x.2)) = true := fun x _ => decide_eq_true hlisted
    rw [listedItems, List.filter_eq_self.mpr hfilter]
    exact List.zipIdx_map_fst 0 items
  rw [listedWeight, hall, weightOf]

/-- The score is safe with a list exactly when its weights add up to an `int`. -/
theorem scoreSafe_iff (hpos : ∀ item ∈ items, 0 < item.weight) :
    ScoreSafe items ↔ weightOf items ≤ 2 ^ 31 - 1 := by
  constructor
  · intro h
    have hsums := h.sums (everyListed items) rfl
    rw [scoreSums_le_iff (finalScores_nonneg hpos) le_rfl (by decide), totalScore_finalScores,
      listedWeight_everyListed] at hsums
    simpa [Tally.init] using hsums
  · intro hmax
    have hscore : ∀ job : Job, job.rblist = items →
        (tallyAll (finalScores job)).score = listedWeight job := by
      rintro job rfl
      obtain ⟨hlow, hhigh⟩ := listedWeight_mem hpos
      rw [weightOf] at hmax
      rw [tallyAll_score, totalScore_finalScores]
      exact toInt32_of_mem (by omega)
    constructor
    · rintro job rfl
      rw [scoreSums_le_iff (finalScores_nonneg hpos) le_rfl (by decide), totalScore_finalScores]
      have hlisted := (listedWeight_mem hpos).2
      rw [weightOf] at hmax
      simp only [Tally.init]
      omega
    · intro job more hjob hmoreItems hmore hreject
      rw [hscore job hjob] at hreject
      rw [hscore more hmoreItems]
      refine hreject.trans (listedWeight_mono (hmoreItems.trans hjob.symm) ?_ hmore)
      rwa [hjob]

/-! ### The weights of a file -/

theorem weightOf_freshItem (entries : List (Bytes × Int)) :
    weightOf (entries.map freshItem) = (entries.map Prod.snd).sum := by
  rw [weightOf, List.map_map]
  rfl

/-- A file whose score is safe has weights that add up to an `int`. -/
theorem ScoreSafeFile.sum_le {content : Bytes} (h : ScoreSafeFile content)
    {entries : List (Bytes × Int)}
    (hentries : (bufferLines content).mapM lineEntry = some entries) :
    (entries.map Prod.snd).sum ≤ 2 ^ 31 - 1 := by
  obtain ⟨cells, hlist, hvals⟩ := cfgRead_of_entries Heap.empty hentries
  cases hfirst : (cfgRead (fun _ => true) Heap.empty (some content)).1 with
  | none =>
    -- no entries at all
    rw [hfirst] at hlist
    cases cells with
    | nil =>
      obtain rfl : entries = [] := by simpa using hvals.symm
      decide
    | cons c cells => exact absurd hlist.1 (by simp)
  | some first =>
    rw [hfirst] at hlist
    have hplain := cfgRead_plain hfirst hlist (by simp)
    have hpos : ∀ item ∈ cells.map Prod.snd, 0 < item.weight := by
      intro item hitem
      obtain ⟨c, hc, rfl⟩ := List.mem_map.mp hitem
      exact (hplain c hc).weight_pos
    have hsafe := h (fun _ => true) Heap.empty first cells hfirst hlist
    rwa [scoreSafe_iff hpos, hvals, weightOf_freshItem] at hsafe

/-- **When the score cannot overflow.** -/
theorem scoreSafeFile_iff (content : Bytes) :
    ScoreSafeFile content ↔
      ∀ entries, (bufferLines content).mapM lineEntry = some entries →
        (entries.map Prod.snd).sum ≤ 2 ^ 31 - 1 := by
  constructor
  · intro h entries hentries
    exact h.sum_le hentries
  · intro h callocOk heap first cells hfirst hlist
    obtain ⟨entries, hentries, hvals⟩ := cfgRead_entries hfirst hlist (by simp)
    have hplain := cfgRead_plain hfirst hlist (by simp)
    have hpos : ∀ item ∈ cells.map Prod.snd, 0 < item.weight := by
      intro item hitem
      obtain ⟨c, hc, rfl⟩ := List.mem_map.mp hitem
      exact (hplain c hc).weight_pos
    rw [scoreSafe_iff hpos, hvals, weightOf_freshItem]
    exact h entries hentries

/-- A file of equal lines with the largest weight. -/
def heavyFile (n : Nat) : Bytes := (List.replicate n (ascii "a 32767" ++ [lf])).flatten

/-- Each of its lines is an entry. -/
theorem heavyFile_entries (n : Nat) :
    (bufferLines (heavyFile n)).mapM lineEntry =
      some (List.replicate n (ascii "a", 32767)) := by
  have hplain : nul ∉ ascii "a 32767" ++ [lf] := by decide
  have hline : strippedLine (ascii "a 32767" ++ [lf]) = ascii "a 32767" := by decide
  have hentry : lineEntry (ascii "a 32767") = some (ascii "a", 32767) := by decide
  have hlines : fileLines (heavyFile n) = List.replicate n (ascii "a 32767" ++ [lf]) := by
    have hfree : ∀ text ∈ List.replicate n (ascii "a 32767"), lf ∉ text := by
      intro text htext
      obtain rfl := List.eq_of_mem_replicate htext
      decide
    have hflat := fileLines_flatten hfree
    rwa [List.map_replicate] at hflat
  have hnul : nul ∉ heavyFile n := by
    intro hmem
    obtain ⟨line, hmemLine, hb⟩ := List.mem_flatten.mp hmem
    obtain rfl := List.eq_of_mem_replicate hmemLine
    exact hplain hb
  have hfit : ∀ line ∈ fileLines (heavyFile n), line.length ≤ 1022 := by
    intro line hmem
    rw [hlines] at hmem
    obtain rfl := List.eq_of_mem_replicate hmem
    decide
  have hbuffers : bufferLines (heavyFile n) = List.replicate n (ascii "a 32767") := by
    rw [bufferLines, fileBuffers_eq_configLines hnul hfit, configLines, hlines,
      List.map_replicate, hline, List.filter_replicate_of_pos (by decide)]
  rw [hbuffers]
  clear hbuffers hnul hfit hlines
  induction n with
  | zero => rfl
  | succ n ih =>
    rw [List.replicate_succ, List.mapM_cons, hentry, ih]
    rfl

/-- With 65539 such lines the sum of all scores is no `int`, and a client that every blacklist
lists gets the DUNNO of a negative score. -/
theorem heavyFile_not_scoreSafe :
    ¬ ScoreSafeFile (heavyFile 65539) ∧
      (tallyAll (finalScores (everyListed
        ((List.replicate 65539 (ascii "a", 32767)).map freshItem)))).score < 100 := by
  have hsum : (((List.replicate 65539 (ascii "a", 32767)).map Prod.snd).sum : Int) =
      2147516413 := by
    rw [List.map_replicate, List.sum_replicate]
    norm_num
  constructor
  · intro h
    have hle := h.sum_le (heavyFile_entries 65539)
    rw [hsum] at hle
    omega
  · rw [tallyAll_score, totalScore_finalScores, listedWeight_everyListed, weightOf_freshItem,
      hsum]
    decide

/-! ### The scorer without threads -/

/-- `process_request` stops at 100, so that its score stays far below `INT_MAX`. -/
theorem processLoop_score_le {answer : Nat → Option Hostent} (n : Nat)
    (hweights : ∀ item ∈ items, 0 < item.weight ∧ item.weight ≤ shrtMax) (hlow : 0 ≤ t.score)
    (hhigh : t.score < 100 + shrtMax) :
    0 ≤ (processLoop answer n items t).score ∧
      (processLoop answer n items t).score < 100 + shrtMax := by
  induction items generalizing n t with
  | nil => exact ⟨hlow, hhigh⟩
  | cons rbl rest ih =>
    rw [processLoop]
    split_ifs with hscore
    · obtain ⟨hpos, hle⟩ := hweights rbl List.mem_cons_self
      have hafter : 0 ≤ (processAnswer t rbl (answer n)).score ∧
          (processAnswer t rbl (answer n)).score < 100 + shrtMax := by
        simp only [shrtMax] at hle ⊢
        rw [processAnswer_eq t hpos]
        split_ifs with hlisted
        · rw [tallyItem_score t _ (by omega)]
          omega
        · omega
      dsimp only
      split_ifs with hstop
      · exact hafter
      · exact ih (n + 1) (fun item hitem => hweights item (List.mem_cons_of_mem rbl hitem))
          hafter.1 hafter.2
    · exact ⟨hlow, hhigh⟩

/-- Three lists of the largest weight, of which the first is asked only. -/
theorem processLoop_score_le_heavy :
    let items := List.replicate 3 (freshItem (ascii "a", 32767))
    let t := processLoop (fun _ => some ⟨.inet, [⟨127, 0, 0, 2⟩]⟩) 0 items Tally.init
    0 ≤ t.score ∧ t.score < 100 + shrtMax := by
  intro items t
  refine processLoop_score_le 0 ?_ (by decide) (by decide)
  intro item hitem
  obtain rfl := List.eq_of_mem_replicate hitem
  decide

end Rblpolicyd
