import Rblpolicyd.Libc.Numerals

/-!
# What one lookup decides

A solver resolves its name and looks through the addresses of the answer for one
that prints with the prefix `127.`; if there is one it stores the weight of its
blacklist as the score. Printed in plain decimal, that prefix is the first octet.

## Main definitions

* `Ipv4`, `Hostent` — an address, the answer of the resolver
* `inetNtop` — an address in text
* `findsLoopback`, `solverScore` — the search of `solver_th` and the score it stores
* `Listed` — the blacklist answers with an address in 127.0.0.0/8

## Main results

* `findsLoopback_iff`, `solverScore_eq` — the search decides `Listed`
-/

namespace Rblpolicyd

open Libc

/-- The four octets of an address. -/
structure Ipv4 where
  o1 : UInt8
  o2 : UInt8
  o3 : UInt8
  o4 : UInt8
  deriving DecidableEq

/-- The address families of an answer. -/
inductive AddrFamily
  | inet
  | inet6
  deriving DecidableEq

/-- `struct hostent`: the family and the addresses of an answer. -/
structure Hostent where
  hAddrtype : AddrFamily
  hAddrList : List Ipv4
  deriving DecidableEq

/-- `inet_ntop(AF_INET, …)`: the octets in plain decimal. -/
def inetNtop (a : Ipv4) : Bytes :=
  decimal a.o1.toNat ++ 46 :: decimal a.o2.toNat ++ 46 :: decimal a.o3.toNat ++
    46 :: decimal a.o4.toNat

/-- The loop of `solver_th` over the addresses of an answer. -/
def findsLoopback : List Ipv4 → Bool
  | [] => false
  | a :: addrlist =>
    if (ascii "127.").isPrefixOf (inetNtop a) then true else findsLoopback addrlist

/-- The score that `solver_th` leaves in its record, which starts at 0; `none` is a null
`hp`. -/
def solverScore (weight : Int) : Option Hostent → Int
  | none => 0
  | some hp =>
    if hp.hAddrtype = .inet ∧ findsLoopback hp.hAddrList then weight else 0

/-- The answer has an address in 127.0.0.0/8. -/
def Listed (answer : Option Hostent) : Prop :=
  ∃ hp, answer = some hp ∧ hp.hAddrtype = .inet ∧ ∃ a ∈ hp.hAddrList, a.o1 = 127

/-- Text in front of the first dot is determined by the whole text. -/
theorem eq_of_append_dot_isPrefix {s t rest : Bytes} (hs : (46 : UInt8) ∉ s) (ht : (46 : UInt8) ∉ t)
    (h : s ++ [46] <+: t ++ 46 :: rest) : s = t := by
  have htail : ∀ {u v w : Bytes}, (46 : UInt8) ∉ v → u ++ 46 :: w = v → False :=
    fun hv heq => hv (heq ▸ by simp)
  obtain ⟨w, hw⟩ := h
  rw [List.append_assoc, List.singleton_append] at hw
  rcases List.append_eq_append_iff.mp hw with ⟨m, hm, hm'⟩ | ⟨m, hm, hm'⟩
  · cases m with
    | nil => simpa using hm.symm
    | cons b m =>
      obtain ⟨rfl, -⟩ := List.cons.inj hm'
      exact (htail ht hm.symm).elim
  · cases m with
    | nil => simpa using hm
    | cons b m =>
      obtain ⟨rfl, -⟩ := List.cons.inj hm'
      exact (htail hs hm.symm).elim

theorem dot_notMem_decimal (n : Nat) : (46 : UInt8) ∉ decimal n :=
  fun h => absurd (decimal_isDigit h).1 (by decide)

/-- The printed address has the prefix exactly when its first octet is 127. -/
theorem loopback_isPrefix_iff (a : Ipv4) : ascii "127." <+: inetNtop a ↔ a.o1 = 127 := by
  have hkey : ascii "127." = decimal 127 ++ [46] := by decide
  have htext : inetNtop a = decimal a.o1.toNat ++ 46 :: (decimal a.o2.toNat ++
      46 :: decimal a.o3.toNat ++ 46 :: decimal a.o4.toNat) := by
    simp [inetNtop]
  rw [hkey, htext]
  constructor
  · intro h
    have hdec := eq_of_append_dot_isPrefix (dot_notMem_decimal 127) (dot_notMem_decimal _) h
    exact UInt8.toNat_inj.mp (decimal_injective hdec).symm
  · intro h
    rw [h]
    exact ⟨_, by rw [List.append_assoc, List.singleton_append]; rfl⟩

theorem findsLoopback_iff (addrlist : List Ipv4) :
    findsLoopback addrlist = true ↔ ∃ a ∈ addrlist, a.o1 = 127 := by
  induction addrlist with
  | nil => simp [findsLoopback]
  | cons a addrlist ih =>
    rw [findsLoopback, List.exists_mem_cons_iff, ← ih, ← loopback_isPrefix_iff,
      ← List.isPrefixOf_iff_prefix]
    split_ifs with h <;> simp [h]

instance (answer : Option Hostent) : Decidable (Listed answer) :=
  match answer with
  | none => isFalse fun ⟨_, h, _⟩ => absurd h (by simp)
  | some hp =>
    decidable_of_iff (hp.hAddrtype = .inet ∧ findsLoopback hp.hAddrList = true) <| by
      rw [findsLoopback_iff]
      constructor
      · intro h
        exact ⟨hp, rfl, h⟩
      · rintro ⟨hp', heq, h⟩
        rwa [← Option.some.inj heq] at h

/-- A solver stores the weight of a blacklist that lists the client, and 0 otherwise. -/
theorem solverScore_eq (weight : Int) (answer : Option Hostent) :
    solverScore weight answer = if Listed answer then weight else 0 := by
  cases answer with
  | none => simp [solverScore, Listed]
  | some hp =>
    have hiff : Listed (some hp) ↔ hp.hAddrtype = .inet ∧ findsLoopback hp.hAddrList = true := by
      simp [Listed, findsLoopback_iff]
    simp only [solverScore, hiff]

end Rblpolicyd
