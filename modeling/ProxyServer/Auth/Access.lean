import ProxyServer.AddressText
import ProxyServer.Lib.Mask

namespace ProxyServer
open Lib

structure Subnet where
  net : UInt32
  bits : Option Nat
  inRange : ∀ n ∈ bits, n ≤ 32

namespace Subnet

def text (s : Subnet) : Bytes := dotted s.net ++ s.bits.elim [] fun bits => 47 :: printed bits

def Contains (s : Subnet) (a : UInt32) : Prop :=
  SameLeading (s.bits.getD 32) a.toBitVec s.net.toBitVec

end Subnet

def hostMask (bits : Nat) : UInt32 := if bits = 0 then 0 else 0xffffffff <<< UInt32.ofNat (32 - bits)

theorem isMask_hostMask {bits : Nat} (bound : bits ≤ 32) : IsMask bits (hostMask bits).toBitVec := by
  have shifted : ∀ n < 33, (hostMask n).toBitVec = BitVec.allOnes 32 <<< (32 - n) := by
    decide
  rw [shifted bits (Nat.lt_succ_of_le bound)]
  exact isMask_shiftLeft bits bound

theorem sameLeading_whole {x y : UInt32} : SameLeading 32 x.toBitVec y.toBitVec ↔ x = y := by
  constructor
  · intro same
    exact UInt32.toBitVec_inj.mp (BitVec.eq_of_getMsbD_eq same)
  · rintro rfl i _
    rfl

theorem ipMatches_bare (ip : Bytes) {rule : Bytes} (plain : 47 ∉ rule) :
    ipMatches ip rule = true ↔ ip = rule := by
  have none : rule.dropWhile (· != 47) = [] :=
    List.dropWhile_eq_nil_iff.mpr fun c member =>
      bne_iff_ne.mpr fun same => plain (same ▸ member)
  by_cases same : ip = rule
  · simp [ipMatches, same]
  · simp [ipMatches, same, none]

theorem ipMatches_slash {ip literal : Bytes} (plain : 47 ∉ ip) (cut : 47 ∉ literal)
    (suffix : Bytes) :
    ipMatches ip (literal ++ 47 :: suffix) = true ↔
      (0 ≤ atoi suffix ∧ atoi suffix ≤ 32) ∧ ∃ address subnet,
        inetPton4 ip = some address ∧ inetPton4 literal = some subnet ∧
        SameLeading (atoi suffix).toNat address.toBitVec subnet.toBitVec := by
  have before : ∀ c ∈ literal, (c != 47) = true :=
    fun c member => bne_iff_ne.mpr fun same => cut (same ▸ member)
  have different : ip ≠ literal ++ 47 :: suffix := fun same => plain (by simp [same])
  have mask : (if atoi suffix = 0 then (0 : UInt32)
      else 0xffffffff <<< UInt32.ofNat (32 - (atoi suffix).toNat)) =
        hostMask (atoi suffix).toNat ∨ atoi suffix < 0 := by
    by_cases negative : atoi suffix < 0
    · exact .inr negative
    · have zero : atoi suffix = 0 ↔ (atoi suffix).toNat = 0 := by omega
      simp [hostMask, zero]
  rw [ipMatches, if_neg different]
  simp only [List.dropWhile_append_of_pos before, List.takeWhile_append_of_pos before]
  simp only [List.dropWhile_cons, List.takeWhile_cons, bne_self_eq_false, Bool.false_eq_true,
    ↓reduceIte, List.append_nil]
  by_cases outside : atoi suffix < 0 ∨ atoi suffix > 32
  · rw [if_pos outside]
    refine iff_of_false (by simp) ?_
    rintro ⟨range, -⟩
    omega
  · rw [if_neg outside, mask.resolve_right fun negative => outside (.inl negative)]
    have range : 0 ≤ atoi suffix ∧ atoi suffix ≤ 32 := by omega
    have bound : (atoi suffix).toNat ≤ 32 := by omega
    cases left : inetPton4 ip with
    | none => simp
    | some address =>
        cases right : inetPton4 literal with
        | none => simp
        | some subnet =>
            simp only [range, and_self, true_and, beq_iff_eq, Option.some.injEq]
            simp only [← masked_eq_iff (isMask_hostMask bound), ← UInt32.toBitVec_and,
              UInt32.toBitVec_inj]
            constructor
            · exact fun same => ⟨_, _, rfl, rfl, same⟩
            · rintro ⟨_, _, rfl, rfl, same⟩
              exact same

theorem ipMatches_subnet (a : UInt32) (s : Subnet) :
    ipMatches (dotted a) s.text = true ↔ s.Contains a := by
  obtain ⟨net, bits, inRange⟩ := s
  have plain (b : UInt32) : 47 ∉ dotted b := notMem_dotted (by decide) (by decide) b
  cases bits with
  | none =>
      simp only [Subnet.text, Option.elim_none, List.append_nil, Subnet.Contains, Option.getD_none]
      rw [ipMatches_bare _ (plain net), sameLeading_whole, dotted_injective.eq_iff]
  | some n =>
      have small : n ≤ 32 := inRange n rfl
      simp only [Subnet.text, Option.elim_some, Subnet.Contains, Option.getD_some]
      rw [ipMatches_slash (plain a) (plain net), atoi_printed n (by omega), inetPton4_dotted,
        inetPton4_dotted]
      simp [small]

theorem checkIpAllowed_iff (lists : AccessLists) (ip : Bytes) :
    checkIpAllowed lists ip = true ↔ (∀ r ∈ lists.denyIps, ¬ ipMatches ip r = true) ∧
      (lists.allowIps = [] ∨ ∃ r ∈ lists.allowIps, ipMatches ip r = true) := by
  have denied : lists.denyIps.any (ipMatches ip) = false ↔
      ∀ r ∈ lists.denyIps, ¬ ipMatches ip r = true := by
    simp
  rw [checkIpAllowed, ← denied, ← List.any_eq_true]
  cases lists.denyIps.any (ipMatches ip) with
  | true => simp
  | false => by_cases none : lists.allowIps = [] <;> simp [none]

/-- A client is let in if no rule denies it and, if there are rules that allow, one of them does. -/
theorem ipAllowed_iff (denies allows : List Subnet) (a : UInt32) :
    checkIpAllowed ⟨allows.map Subnet.text, denies.map Subnet.text⟩ (dotted a) = true ↔
      (∀ s ∈ denies, ¬ s.Contains a) ∧ (allows = [] ∨ ∃ s ∈ allows, s.Contains a) := by
  rw [checkIpAllowed_iff]
  simp only [List.mem_map, exists_exists_and_eq_and, forall_exists_index, and_imp,
    forall_apply_eq_imp_iff₂, List.map_eq_nil_iff, ipMatches_subnet]

end ProxyServer
