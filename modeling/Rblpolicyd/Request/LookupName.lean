import Rblpolicyd.Config.Grammar
import Rblpolicyd.Request.Reversed

/-!
# Whether a lookup name fits its buffer

A lookup name is the reversed address, a dot and the domain of a blacklist, printed into a
buffer of 1024 bytes. An address takes at most 47 of them, which leaves 975 for the domain
beside the dot and the terminating NUL. The buffer of `cfg_read` is 1024 bytes as well, and a
line in it may have a domain of up to 1020.

## Main definitions

* `rqnameSize`, `widestDomain` — the buffer, and what it leaves for a domain

## Main results

* `length_reverseQuad_le` — the longest reversed address
* `lookupName_fits_iff` — when the lookup names of a configuration fit
-/

namespace Rblpolicyd

open Libc

/-- The size of `rqname`. -/
def rqnameSize : Nat := 1024

/-- The longest domain that has room behind every address. -/
def widestDomain : Nat := 975

/-- Four integers with ten digits and a minus sign. -/
def widestClient : Bytes := ascii "-2147483648.-2147483648.-2147483648.-2147483648"

variable {callocOk : Nat → Bool} {heap : CfgHeap} {content : Bytes} {first : Nat}
  {cells : List (Nat × Cfgitem)}

/-- A reversed address has at most four integers of eleven characters and three dots. -/
theorem length_reverseQuad_le {client : Bytes} {quad : Int × Int × Int × Int}
    (hquad : scanQuad client = some quad) : (reverseQuad quad).length ≤ 47 := by
  obtain ⟨n1, n2, n3, n4, rest, -, -, rfl, -⟩ := spelledQuad_of_scanQuad hquad
  have hvalue : ∀ n : Numeral, (printInt n.value).length ≤ 11 := fun n => length_printInt_toInt32 _
  have h1 := hvalue n1
  have h2 := hvalue n2
  have h3 := hvalue n3
  have h4 := hvalue n4
  simp only [reverseQuad, List.length_append, List.length_cons]
  omega

theorem scanQuad_widestClient :
    scanQuad widestClient = some (-2147483648, -2147483648, -2147483648, -2147483648) := by
  decide +kernel

theorem length_lookupName (rdn rbldomain : Bytes) :
    (lookupName rdn rbldomain).length = rdn.length + rbldomain.length + 1 := by
  simp only [lookupName, List.length_append, List.length_cons]
  omega

/-- One domain has room behind every address exactly when it is not too long. -/
theorem forall_lookupName_fits_iff (rbldomain : Bytes) :
    (∀ client quad, scanQuad client = some quad →
      (lookupName (reverseQuad quad) rbldomain).length + 1 ≤ rqnameSize) ↔
      rbldomain.length ≤ widestDomain := by
  constructor
  · intro hfits
    have hwidest := hfits _ _ scanQuad_widestClient
    have hlength : (reverseQuad (-2147483648, -2147483648, -2147483648, -2147483648)).length =
        47 := by decide +kernel
    rw [length_lookupName, hlength, rqnameSize] at hwidest
    rw [widestDomain]
    omega
  · intro hshort client quad hquad
    have hle := length_reverseQuad_le hquad
    rw [widestDomain] at hshort
    rw [length_lookupName, rqnameSize]
    omega

/-- For every file from which `cfg_read` returns a list: the lookup names of all its entries and
all addresses that are read fit the buffer exactly when no line has a domain of more than 975
bytes. -/
theorem lookupName_fits_iff (hfirst : (cfgRead callocOk heap (some content)).1 = some first)
    (hlist : (cfgRead callocOk heap (some content)).2.IsList (some first) cells) :
    (∀ c ∈ cells, ∀ client quad, scanQuad client = some quad →
      (lookupName (reverseQuad quad) c.2.rbldomain).length + 1 ≤ rqnameSize) ↔
      ∀ line ∈ bufferLines content, ∀ domain weight, IsEntry line domain weight →
        domain.length ≤ widestDomain := by
  obtain ⟨entries, hentries, hvals⟩ := cfgRead_entries hfirst hlist (by simp)
  obtain ⟨hlines, hall⟩ := mem_of_mapM_lineEntry hentries
  simp only [forall_lookupName_fits_iff]
  constructor
  · intro hshort line hline domain weight hentry
    have hlineEntry := lineEntry_eq_some_iff.mpr hentry
    obtain ⟨e, he, heq⟩ := hall line hline
    obtain rfl : e = (domain, weight) := Option.some.inj (heq.symm.trans hlineEntry)
    have hitem : freshItem (domain, weight) ∈ cells.map Prod.snd :=
      hvals ▸ List.mem_map_of_mem he
    obtain ⟨c, hc, hcell⟩ := List.mem_map.mp hitem
    have hle := hshort c hc
    rwa [hcell] at hle
  · intro hshort c hc
    have hitem : c.2 ∈ entries.map freshItem := hvals ▸ List.mem_map_of_mem hc
    obtain ⟨e, he, hcell⟩ := List.mem_map.mp hitem
    obtain ⟨line, hline, heq⟩ := hlines e he
    rw [← hcell]
    exact hshort line hline e.1 e.2 (lineEntry_eq_some_iff.mp heq)

/-- The lookup names of the sample configuration fit. -/
theorem lookupName_fits_sampleConfig :
    ∃ cells, (cfgRead (fun _ => true) Heap.empty (some sampleConfig)).2.IsList (some 0) cells ∧
      cells.length = 2 ∧
      ∀ c ∈ cells, ∀ client quad, scanQuad client = some quad →
        (lookupName (reverseQuad quad) c.2.rbldomain).length + 1 ≤ rqnameSize := by
  have hread : cfgRead (fun _ => true) Heap.empty (some sampleConfig) =
      (some 0, ⟨[some ⟨⟨ascii "bl.spamcop.net", 70, 0, 0⟩, some 1⟩,
        some ⟨⟨ascii "list.dsbl.org", 25, 0, 0⟩, none⟩]⟩) := by decide +kernel
  have hlist : (cfgRead (fun _ => true) Heap.empty (some sampleConfig)).2.IsList (some 0)
      [(0, ⟨ascii "bl.spamcop.net", 70, 0, 0⟩), (1, ⟨ascii "list.dsbl.org", 25, 0, 0⟩)] := by
    rw [hread]
    exact ⟨rfl, some 1, rfl, rfl, none, rfl, rfl⟩
  have hlines : bufferLines sampleConfig =
      [ascii "bl.spamcop.net\t\t70", ascii " list.dsbl.org 0x19"] := by decide +kernel
  refine ⟨_, hlist, rfl, (lookupName_fits_iff (by rw [hread]) hlist).mpr ?_⟩
  intro line hline domain weight hentry
  have hentry := lineEntry_eq_some_iff.mpr hentry
  have hshort : ∀ line ∈ bufferLines sampleConfig,
      (lineEntry line).all (fun e => e.1.length ≤ widestDomain) = true := by
    rw [hlines]
    decide +kernel
  have hle := hshort line hline
  rw [hentry] at hle
  simpa using hle

/-- One line with the longest domain that the buffer of `cfg_read` holds with a weight. -/
def longConfig : Bytes := List.replicate 1020 97 ++ ascii " 1"

/-- Its domain is accepted, and leaves no room for any address. -/
theorem lookupName_too_long :
    cfgRead (fun _ => true) Heap.empty (some longConfig) =
        (some 0, ⟨[some ⟨⟨List.replicate 1020 97, 1, 0, 0⟩, none⟩]⟩) ∧
      scanQuad (ascii "1.2.3.4") = some (1, 2, 3, 4) ∧
      rqnameSize < (lookupName (reverseQuad (1, 2, 3, 4)) (List.replicate 1020 97)).length + 1 := by
  decide +kernel

end Rblpolicyd
