import Rblpolicyd.Request.Reversed
import Rblpolicyd.Verdict.Lookup

/-!
# The addresses that are looked up

An address is four octets, spelled in decimal with dots between them. The worker leaves the check
to `sscanf`, which also takes white space and a sign before each number, numbers of any size, and
any text behind the fourth. This file compares the two and gives the names that an address is
looked up under.

## Main definitions

* `Ipv4.SpelledBy`, `IsAddress` — the texts that stand for an address
* `Ipv4.queryName` — the name of an address in the domain of a blacklist
* `FourNumerals` — the texts that the worker reads as an address
* `ClientError`, `clientError` — why a request is not looked up

## Main results

* `scanQuad_isSome_iff` — what `sscanf` accepts
* `scanQuad_of_spelledBy`, `reverseQuad_octets` — an address is read and reversed faithfully
* `queryName_injective` — two addresses do not share a name
-/

namespace Rblpolicyd

open Libc

/-! ### Addresses and their names -/

/-- A run of decimal digits that stands for an octet. -/
structure IsOctet (digits : Bytes) (o : UInt8) : Prop where
  ne_nil : digits ≠ []
  decimal : ∀ b ∈ digits, 48 ≤ b ∧ b ≤ 57
  value : decimalValue digits = o.toNat

namespace Ipv4

/-- The text is the dotted quad of the address, with nothing before or behind it. -/
def SpelledBy (a : Ipv4) (client : Bytes) : Prop :=
  ∃ d1 d2 d3 d4, IsOctet d1 a.o1 ∧ IsOctet d2 a.o2 ∧ IsOctet d3 a.o3 ∧ IsOctet d4 a.o4 ∧
    client = d1 ++ dot :: d2 ++ dot :: d3 ++ dot :: d4

/-- The octets, as `sscanf` stores them. -/
def octets (a : Ipv4) : Int × Int × Int × Int := (a.o1.toNat, a.o2.toNat, a.o3.toNat, a.o4.toNat)

/-- The octets in reverse order. -/
def reversed (a : Ipv4) : Ipv4 := ⟨a.o4, a.o3, a.o2, a.o1⟩

/-- The text of the reversed octets, a dot and the domain. -/
def queryName (a : Ipv4) (domain : Bytes) : Bytes := inetNtop a.reversed ++ dot :: domain

end Ipv4

/-- The text is a dotted quad. -/
def IsAddress (client : Bytes) : Prop := ∃ a : Ipv4, a.SpelledBy client

/-- Decimal output in front of a dot is read back, whatever is behind it. -/
theorem decimal_append_dot_inj {m n : Nat} {s t : Bytes}
    (h : decimal m ++ dot :: s = decimal n ++ dot :: t) : m = n ∧ s = t := by
  have hdot := congrArg (fun u => strchr u dot) h
  simp only [strchr_append_cons (dot_notMem_decimal _), Option.some.injEq, List.cons.injEq,
    true_and] at hdot
  subst hdot
  exact ⟨decimal_injective (List.append_cancel_right h), rfl⟩

theorem inetNtop_injective : Function.Injective inetNtop := by
  intro a b h
  simp only [inetNtop, List.append_assoc, List.cons_append] at h
  obtain ⟨h1, h⟩ := decimal_append_dot_inj h
  obtain ⟨h2, h⟩ := decimal_append_dot_inj h
  obtain ⟨h3, h⟩ := decimal_append_dot_inj h
  have h4 := decimal_injective h
  cases a
  cases b
  simp only [Ipv4.mk.injEq]
  exact ⟨UInt8.toNat_inj.mp h1, UInt8.toNat_inj.mp h2, UInt8.toNat_inj.mp h3,
    UInt8.toNat_inj.mp h4⟩

theorem reversed_injective : Function.Injective Ipv4.reversed := by
  intro a b h
  obtain ⟨h4, h3, h2, h1⟩ := Ipv4.mk.inj h
  cases a
  cases b
  simp only [Ipv4.mk.injEq]
  exact ⟨h1, h2, h3, h4⟩

/-- In one domain two addresses have two names. -/
theorem queryName_injective (domain : Bytes) :
    Function.Injective fun a : Ipv4 => a.queryName domain := by
  intro a b h
  apply reversed_injective
  apply inetNtop_injective
  exact List.append_cancel_right h

/-! ### What `sscanf` accepts -/

namespace Numeral

variable {n : Numeral}

/-- The number is spelled as `%d` reads it. -/
structure Scannable (n : Numeral) : Prop extends n.Spelled where
  gap : ∀ b ∈ n.gap, isspace b = true

/-- A number that is spelled with bare digits. -/
def bare (digits : Bytes) : Numeral := ⟨[], [], digits⟩

/-- More digits behind a number make a number. -/
theorem Scannable.append (h : n.Scannable) {more : Bytes}
    (hmore : ∀ b ∈ more, isDigit 10 b = true) :
    Scannable { n with digits := n.digits ++ more } where
  sign := h.sign
  digits b hb := by
    rcases List.mem_append.mp hb with hb | hb
    · exact h.digits b hb
    · exact hmore b hb
  digits_ne_nil := List.append_ne_nil_of_left_ne_nil h.digits_ne_nil more
  gap := h.gap

end Numeral

/-- A digit is neither white space nor a sign. -/
theorem digit_ne {b : UInt8} (hb : isDigit 10 b = true) :
    isspace b = false ∧ b ≠ 45 ∧ b ≠ 43 := by
  obtain ⟨hlow, hhigh⟩ := isDigit_ten_iff.mp hb
  have hlow' : 48 ≤ b.toNat := UInt8.le_iff_toNat_le.mp hlow
  refine ⟨?_, ?_, ?_⟩
  · simp only [isspace, Bool.or_eq_false_iff, beq_eq_false_iff_ne, Bool.and_eq_false_iff,
      decide_eq_false_iff_not, ne_eq]
    constructor
    · rintro rfl
      simp at hlow'
    · right
      intro hle
      have hle' : b.toNat ≤ 13 := UInt8.le_iff_toNat_le.mp hle
      omega
  · rintro rfl
    simp at hlow'
  · rintro rfl
    simp at hlow'

/-- The sign of a number, and its digits. -/
theorem sign_append {sign digits : Bytes} (hsign : sign = [] ∨ sign = [43] ∨ sign = [45])
    {b : UInt8} (hb : isDigit 10 b = true) (hdigits : digits.head? = some b) :
    signText (sign ++ digits) = sign ∧ (readSign (sign ++ digits)).2 = digits := by
  rcases hsign with rfl | rfl | rfl
  · obtain ⟨-, hminus, hplus⟩ := digit_ne hb
    obtain ⟨rest, rfl⟩ := List.head?_eq_some_iff.mp hdigits
    simp [signText, readSign, hminus, hplus]
  · exact ⟨rfl, rfl⟩
  · exact ⟨rfl, rfl⟩

/-- A number is read back from behind any text, with the digits that the text starts with. -/
theorem spellInt_text {n : Numeral} (h : n.Scannable) (rest : Bytes) :
    spellInt (n.text ++ rest) =
      ({ n with digits := n.digits ++ rest.takeWhile (isDigit 10) },
        rest.dropWhile (isDigit 10)) := by
  obtain ⟨b, more, hdigits⟩ := List.exists_cons_of_ne_nil h.digits_ne_nil
  have hb : isDigit 10 b = true := h.digits b (by simp [hdigits])
  have hhead : (n.digits ++ rest).head? = some b := by simp [hdigits]
  obtain ⟨hsign, hread⟩ := sign_append h.sign hb hhead
  -- the white space ends in front of the sign or the first digit
  have hstop : (n.sign ++ (n.digits ++ rest)).takeWhile isspace = [] ∧
      (n.sign ++ (n.digits ++ rest)).dropWhile isspace = n.sign ++ (n.digits ++ rest) := by
    rcases h.sign with hs | hs | hs
    · have hspace := (digit_ne hb).1
      simp [hs, hdigits, hspace]
    · simp [hs, isspace]
    · simp [hs, isspace]
  have htext : n.text ++ rest = n.gap ++ (n.sign ++ (n.digits ++ rest)) := by
    simp [Numeral.text]
  have hdrop : (n.text ++ rest).dropWhile isspace = n.sign ++ (n.digits ++ rest) := by
    rw [htext, dropWhile_append_of_all h.gap, hstop.2]
  have htake : (n.text ++ rest).takeWhile isspace = n.gap := by
    rw [htext, List.takeWhile_append_of_pos h.gap, hstop.1, List.append_nil]
  simp only [spellInt, hdrop, htake, hsign, hread, List.takeWhile_append_of_pos h.digits,
    dropWhile_append_of_all h.digits]

/-- A number in front of something other than a digit is read as its value. -/
theorem scanInt_text {n : Numeral} (h : n.Scannable) {rest : Bytes}
    (hrest : rest.takeWhile (isDigit 10) = []) :
    scanInt (n.text ++ rest) = some (n.value, rest) := by
  have hdrop : rest.dropWhile (isDigit 10) = rest := by
    have hsplit := List.takeWhile_append_dropWhile (p := isDigit 10) (l := rest)
    rwa [hrest, List.nil_append] at hsplit
  rw [scanInt_eq, spellInt_text h, hrest, hdrop, List.append_nil, if_neg h.digits_ne_nil]

theorem takeWhile_dropWhile_isDigit (s : Bytes) :
    (s.dropWhile (isDigit 10)).takeWhile (isDigit 10) = [] := by
  induction s with
  | nil => rfl
  | cons b s ih =>
    by_cases hb : isDigit 10 b = true
    · rw [List.dropWhile_cons_of_pos hb, ih]
    · rw [List.dropWhile_cons_of_neg hb, List.takeWhile_cons_of_neg hb]

theorem takeWhile_dot (rest : Bytes) : (dot :: rest).takeWhile (isDigit 10) = [] :=
  List.takeWhile_cons_of_neg (by decide)

/-- Four numbers with dots between them are read as their values, whatever is behind them. -/
theorem scanQuad_of_numerals {n1 n2 n3 n4 : Numeral} {rest : Bytes}
    (h1 : n1.Scannable) (h2 : n2.Scannable) (h3 : n3.Scannable) (h4 : n4.Scannable)
    (hrest : rest.takeWhile (isDigit 10) = []) :
    scanQuad (n1.text ++ dot :: n2.text ++ dot :: n3.text ++ dot :: n4.text ++ rest) =
      some (n1.value, n2.value, n3.value, n4.value) := by
  simp only [List.append_assoc, List.cons_append]
  have hdot : ∀ s, scanDot (dot :: s) = some s := fun s => rfl
  simp only [scanQuad, scanInt_text h1 (takeWhile_dot _), scanInt_text h2 (takeWhile_dot _),
    scanInt_text h3 (takeWhile_dot _), scanInt_text h4 hrest, hdot, Option.bind_eq_bind,
    Option.bind_some]

/-- The text starts with four numbers with dots between them. Each of them may have white space
and a sign in front, and any text may follow. -/
def FourNumerals (client : Bytes) : Prop :=
  ∃ n1 n2 n3 n4 : Numeral, ∃ rest,
    n1.Scannable ∧ n2.Scannable ∧ n3.Scannable ∧ n4.Scannable ∧
      client = n1.text ++ dot :: n2.text ++ dot :: n3.text ++ dot :: n4.text ++ rest

theorem gap_of_mem_spelledQuad {client : Bytes} {n : Numeral} (hn : n ∈ (spelledQuad client).1) :
    ∀ b ∈ n.gap, isspace b = true := by
  simp only [spelledQuad, List.mem_cons, List.not_mem_nil, or_false] at hn
  intro b hb
  rcases hn with rfl | rfl | rfl | rfl
  · exact List.mem_takeWhile_imp hb
  · exact List.mem_takeWhile_imp hb
  · exact List.mem_takeWhile_imp hb
  · exact List.mem_takeWhile_imp hb

/-- `sscanf` converts all four numbers of exactly these texts. -/
theorem scanQuad_isSome_iff {client : Bytes} :
    (∃ quad, scanQuad client = some quad) ↔ FourNumerals client := by
  constructor
  · rintro ⟨quad, hquad⟩
    obtain ⟨n1, n2, n3, n4, rest, hspelled, hall, -, hclient⟩ := spelledQuad_of_scanQuad hquad
    have hscannable : ∀ n ∈ [n1, n2, n3, n4], n.Scannable := by
      intro n hn
      have hmem : n ∈ (spelledQuad client).1 := by rwa [hspelled]
      exact ⟨hall n hn, gap_of_mem_spelledQuad hmem⟩
    exact ⟨n1, n2, n3, n4, rest, hscannable n1 (by simp), hscannable n2 (by simp),
      hscannable n3 (by simp), hscannable n4 (by simp), hclient⟩
  -- the digits at the start of the rest belong to the fourth number
  · rintro ⟨n1, n2, n3, n4, rest, h1, h2, h3, h4, rfl⟩
    have hdigits : ∀ b ∈ rest.takeWhile (isDigit 10), isDigit 10 b = true :=
      fun b hb => List.mem_takeWhile_imp hb
    have h4' := h4.append hdigits
    have hscan := scanQuad_of_numerals h1 h2 h3 h4' (takeWhile_dropWhile_isDigit rest)
    refine ⟨_, Eq.trans ?_ hscan⟩
    simp [Numeral.text]

/-! ### Addresses are read faithfully -/

theorem IsOctet.scannable {digits : Bytes} {o : UInt8} (h : IsOctet digits o) :
    (Numeral.bare digits).Scannable where
  sign := Or.inl rfl
  digits b hb := isDigit_ten_iff.mpr (h.decimal b hb)
  digits_ne_nil := h.ne_nil
  gap b hb := by cases hb

theorem IsOctet.value_bare {digits : Bytes} {o : UInt8} (h : IsOctet digits o) :
    (Numeral.bare digits).value = (o.toNat : Int) := by
  have hnumber : (Numeral.bare digits).number = o.toNat := by
    rw [← h.value, Numeral.number]
    exact readDigits_eq_decimalValue h.scannable.digits
  have hlt := o.toNat_lt
  rw [Numeral.value, hnumber]
  exact toInt32_saturate_false (by omega)

/-- The text of an address is read as its octets. -/
theorem scanQuad_of_spelledBy {a : Ipv4} {client : Bytes} (h : a.SpelledBy client) :
    scanQuad client = some a.octets := by
  obtain ⟨d1, d2, d3, d4, h1, h2, h3, h4, rfl⟩ := h
  have hnil : ([] : Bytes).takeWhile (isDigit 10) = [] := rfl
  have hscan := scanQuad_of_numerals h1.scannable h2.scannable h3.scannable h4.scannable hnil
  rw [h1.value_bare, h2.value_bare, h3.value_bare, h4.value_bare, List.append_nil] at hscan
  exact hscan

theorem printInt_natCast (n : Nat) : printInt n = decimal n := by
  rw [printInt, if_neg (by omega), Int.natAbs_natCast]

/-- Its reversal is that of the octets. -/
theorem reverseQuad_octets (a : Ipv4) : reverseQuad a.octets = inetNtop a.reversed := by
  simp only [reverseQuad, Ipv4.octets, printInt_natCast, inetNtop, Ipv4.reversed]

theorem IsAddress.fourNumerals {client : Bytes} (h : IsAddress client) : FourNumerals client := by
  obtain ⟨a, ha⟩ := h
  exact scanQuad_isSome_iff.mp ⟨_, scanQuad_of_spelledBy ha⟩

/-! ### Requests that are not looked up -/

/-- Why `worker_th` gives up before the first lookup. -/
inductive ClientError
  /-- "Error reading request" -/
  | readingRequest
  /-- "Could not parse request" -/
  | notParsed
  /-- The buffer for the reversed address is not allocated; nothing is logged. -/
  | noBuffer
  /-- "Invalid client address" -/
  | invalidAddress
  deriving DecidableEq

/-- The first error of a request. -/
def clientError (r : ClientRequest) : Option ClientError :=
  match r.request with
  | none => some .readingRequest
  | some request =>
    match parseRequest r.clientMalloc (cstr request) with
    | none => some .notParsed
    | some client =>
      if !r.rdnMalloc then some .noBuffer
      else
        match scanQuad client with
        | none => some .invalidAddress
        | some _ => none

theorem clientError_eq_none_iff (r : ClientRequest) :
    clientError r = none ↔ prepareClient r ≠ none := by
  unfold clientError prepareClient
  cases r.request with
  | none => simp
  | some request =>
    cases hparse : parseRequest r.clientMalloc (cstr request) with
    | none => simp [hparse]
    | some client =>
      cases hmalloc : r.rdnMalloc with
      | false => simp [hparse]
      | true => cases hquad : scanQuad client <;> simp [hparse, hquad]

variable {r : ClientRequest} {request client : Bytes}

/-- What becomes of a request whose client has been parsed. -/
theorem prepareClient_of_parsed (hrequest : r.request = some request)
    (hparse : parseRequest r.clientMalloc (cstr request) = some client) :
    (r.rdnMalloc = false ∧ prepareClient r = none ∧ clientError r = some .noBuffer) ∨
    (r.rdnMalloc = true ∧ ¬ FourNumerals client ∧ prepareClient r = none ∧
      clientError r = some .invalidAddress) ∨
    (r.rdnMalloc = true ∧ FourNumerals client ∧ ∃ quad, scanQuad client = some quad ∧
      prepareClient r = some (client, reverseQuad quad) ∧ clientError r = none) := by
  cases hmalloc : r.rdnMalloc with
  | false => exact Or.inl ⟨rfl, by simp [prepareClient, clientError, hrequest, hparse, hmalloc]⟩
  | true =>
    apply Or.inr
    rw [← scanQuad_isSome_iff]
    cases hquad : scanQuad client with
    | none =>
      left
      simp [prepareClient, clientError, hrequest, hparse, hmalloc, hquad]
    | some quad =>
      right
      simp [prepareClient, clientError, hrequest, hparse, hmalloc, hquad]

/-- When the buffer is allocated and the check of `sscanf` is right about the client, exactly an
address is prepared. -/
theorem prepareClient_ne_none_iff (hrequest : r.request = some request)
    (hparse : parseRequest r.clientMalloc (cstr request) = some client)
    (hmalloc : r.rdnMalloc = true) (hclient : IsAddress client ∨ ¬ FourNumerals client) :
    prepareClient r ≠ none ↔ IsAddress client := by
  rcases prepareClient_of_parsed hrequest hparse with
    ⟨hfailed, -⟩ | ⟨-, hbad, hnone, -⟩ | ⟨-, hfour, quad, -, hsome, -⟩
  · cases hmalloc.symm.trans hfailed
  · exact iff_of_false (fun h => h hnone) fun haddress => hbad haddress.fourNumerals
  · exact iff_of_true (by simp [hsome]) (hclient.resolve_right fun h => h hfour)

end Rblpolicyd
