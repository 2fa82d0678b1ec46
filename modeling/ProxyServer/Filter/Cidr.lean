import ProxyServer.AddressText
import ProxyServer.Filter.Lists
import ProxyServer.Lib.Mask

namespace ProxyServer
open Lib

inductive Network where
  | v4 (addr : UInt32)
  | v6 (addr : Fin 16 → UInt8)

namespace Network

def width : Network → Nat
  | v4 _ => 32
  | v6 _ => 128

def Contains (leading : Nat) : Network → SockAddr → Prop
  | v4 net, .inet addr _ => SameLeading leading addr.toBitVec net.toBitVec
  | v6 net, .inet6 addr _ => ∀ i < leading,
      leadingBit (fun j => (addr j).toBitVec) i = leadingBit (fun j => (net j).toBitVec) i
  | _, _ => False

end Network

structure Rule where
  literal : Bytes
  network : Network
  bits : Option Nat

namespace Rule

def text (r : Rule) : Bytes := r.literal ++ r.bits.elim [] fun bits => 47 :: printed bits

def Contains (r : Rule) : SockAddr → Prop := r.network.Contains (r.bits.getD r.network.width)

end Rule

namespace Filter

variable {ρ : Type*} {lib : Library ρ}

/-- What is documented of `inet_pton`. -/
structure Library.Documented (lib : Library ρ) : Prop where
  inetPton : ∀ s addr, lib.inetPton s = some addr → s.length ≤ 15 ∧ 47 ∉ s
  inetPton6 : ∀ s addr, lib.inetPton6 s = some addr →
    s.length ≤ 45 ∧ 47 ∉ s ∧ lib.inetPton s = none

def Library.Reads (lib : Library ρ) (literal : Bytes) : Network → Prop
  | .v4 addr => lib.inetPton literal = some addr
  | .v6 addr => lib.inetPton6 literal = some addr

structure Library.Accepts (lib : Library ρ) (r : Rule) : Prop where
  reads : lib.Reads r.literal r.network
  bound : ∀ bits ∈ r.bits, bits ≤ r.network.width

theorem isMask_mask4 {bits : Nat} (bound : bits ≤ 32) : IsMask bits (mask4 bits).toBitVec := by
  have shifted : ∀ n < 33, (mask4 n).toBitVec = BitVec.allOnes 32 <<< (32 - n) := by decide
  rw [shifted bits (Nat.lt_succ_of_le bound)]
  exact isMask_shiftLeft bits bound

theorem isMask_mask6 (bits : Nat) (j : Fin 16) : IsMask (bits - 8 * j) (mask6 bits j).toBitVec := by
  unfold mask6
  split_ifs with whole last
  · intro i inside
    rw [show (255 : UInt8).toBitVec = BitVec.allOnes 8 from rfl, BitVec.getMsbD_allOnes]
    exact decide_eq_decide.mpr (by omega)
  · have rest : bits - 8 * j.val = bits % 8 := by omega
    have shifted : ∀ r < 8, ((255 : UInt8) <<< (8 - r).toUInt8).toBitVec =
        BitVec.allOnes 8 <<< (8 - r) ∨ r = 0 := by decide
    rw [rest, (shifted (bits % 8) (Nat.mod_lt _ (by decide))).resolve_right last.2]
    exact isMask_shiftLeft _ (Nat.le_of_lt (Nat.mod_lt _ (by decide)))
  · have none : bits - 8 * j.val = 0 := by omega
    rw [none]
    exact isMask_zero

theorem masked4_iff {bits : Nat} (bound : bits ≤ 32) (x y : UInt32) :
    x &&& mask4 bits = y &&& mask4 bits ↔ SameLeading bits x.toBitVec y.toBitVec := by
  rw [← masked_eq_iff (isMask_mask4 bound), ← UInt32.toBitVec_and, ← UInt32.toBitVec_and,
    UInt32.toBitVec_inj]

theorem masked6_iff (bits : Nat) (x y : Fin 16 → UInt8) :
    (∀ j, x j &&& mask6 bits j = y j &&& mask6 bits j) ↔ ∀ i < bits,
      leadingBit (fun j => (x j).toBitVec) i = leadingBit (fun j => (y j).toBitVec) i := by
  rw [← masked_bytes_iff (isMask_mask6 bits)]
  simp only [← UInt8.toBitVec_and, UInt8.toBitVec_inj]

theorem Library.Documented.literal (documented : lib.Documented) {literal : Bytes}
    {network : Network} (reads : lib.Reads literal network) :
    literal.length ≤ 45 ∧ 47 ∉ literal := by
  cases network with
  | v4 addr =>
      obtain ⟨short, plain⟩ := documented.inetPton _ _ reads
      exact ⟨short.trans (by decide), plain⟩
  | v6 addr =>
      obtain ⟨short, plain, -⟩ := documented.inetPton6 _ _ reads
      exact ⟨short, plain⟩

def cutSlash (str : Bytes) : Bytes × Int :=
  let copy := str.take 255
  if 47 ∈ copy then (copy.takeWhile (· != 47), atoi (copy.dropWhile (· != 47)).tail) else (copy, -1)

def clamped (width : Nat) (bits : Int) : Nat :=
  if bits < 0 ∨ bits > width then width else bits.toNat

theorem parseCidr_eq (lib : Library ρ) (str : Bytes) (old : CidrBlock) :
    parseCidr lib str old =
      match lib.inetPton (cutSlash str).1 with
      | some addr =>
          let mask := mask4 (clamped 32 (cutSlash str).2)
          some { old with isIpv6 := false, mask := mask, addr := addr &&& mask }
      | none =>
          match lib.inetPton6 (cutSlash str).1 with
          | some addr =>
              let mask := mask6 (clamped 128 (cutSlash str).2)
              some { old with isIpv6 := true, mask6 := mask, addr6 := fun j => addr j &&& mask j }
          | none => none := rfl

theorem clamped_le (width : Nat) (bits : Int) : clamped width bits ≤ width := by
  unfold clamped
  split <;> omega

theorem clamped_elim {width : Nat} {bits : Option Nat} (bound : ∀ n ∈ bits, n ≤ width) :
    clamped width (bits.elim (-1) fun n => (n : Int)) = bits.getD width := by
  cases bits with
  | none => simp [clamped]
  | some n =>
      have inRange : n ≤ width := bound n rfl
      simp [clamped, inRange]

theorem cutSlash_bare {str : Bytes} (short : str.length ≤ 255) (plain : 47 ∉ str) :
    cutSlash str = (str, -1) := by
  simp [cutSlash, List.take_of_length_le short, plain]

theorem cutSlash_slash {literal suffix : Bytes} (short : (literal ++ 47 :: suffix).length ≤ 255)
    (plain : 47 ∉ literal) : cutSlash (literal ++ 47 :: suffix) = (literal, atoi suffix) := by
  have before : ∀ c ∈ literal, (c != 47) = true :=
    fun c member => bne_iff_ne.mpr fun same => plain (same ▸ member)
  rw [cutSlash, List.take_of_length_le short]
  simp only [List.takeWhile_append_of_pos before, List.dropWhile_append_of_pos before]
  simp

theorem cutSlash_text {literal : Bytes} (short : literal.length ≤ 45) (plain : 47 ∉ literal)
    {bits : Option Nat} (bound : ∀ n ∈ bits, n ≤ 128) :
    cutSlash (literal ++ bits.elim [] fun n => 47 :: printed n) =
      (literal, bits.elim (-1) fun n => (n : Int)) := by
  cases bits with
  | none =>
      rw [Option.elim_none, List.append_nil, cutSlash_bare (short.trans (by decide)) plain]
      rfl
  | some n =>
      have small : n < 256 := (bound n rfl).trans_lt (by decide)
      have digits := length_printed n small
      rw [Option.elim_some, cutSlash_slash _ plain, atoi_printed n small]
      · rfl
      · rw [List.length_append, List.length_cons]
        omega

theorem parseCidr_text (documented : lib.Documented) {r : Rule} (accepted : lib.Accepts r)
    (old : CidrBlock) :
    ∃ block, parseCidr lib r.text old = some block ∧
      ∀ sa, block.covers sa = true ↔ r.Contains sa := by
  obtain ⟨literal, network, bits⟩ := r
  obtain ⟨reads, bound⟩ := accepted
  obtain ⟨short, plain⟩ := documented.literal reads
  have cut : cutSlash (literal ++ bits.elim [] fun n => 47 :: printed n) = _ :=
    cutSlash_text short plain fun n member =>
      (bound n member).trans (by cases network <;> simp [Network.width])
  cases network with
  | v4 net =>
      have read : lib.inetPton literal = some net := reads
      have clamp : clamped 32 (bits.elim (-1) fun n => (n : Int)) = bits.getD 32 :=
        clamped_elim bound
      simp only [parseCidr_eq, Rule.text, cut, read, clamp]
      refine ⟨_, rfl, fun sa => ?_⟩
      cases sa with
      | inet addr port =>
          have leading : bits.getD 32 ≤ 32 := clamp ▸ clamped_le 32 _
          simp only [CidrBlock.covers, Rule.Contains, Network.Contains, Network.width]
          rw [← masked4_iff leading]
          simp
      | inet6 addr port => simp [CidrBlock.covers, Rule.Contains, Network.Contains]
      | other family => simp [CidrBlock.covers, Rule.Contains, Network.Contains]
  | v6 net =>
      have read : lib.inetPton6 literal = some net := reads
      obtain ⟨-, -, other⟩ := documented.inetPton6 _ _ read
      have clamp : clamped 128 (bits.elim (-1) fun n => (n : Int)) = bits.getD 128 :=
        clamped_elim bound
      simp only [parseCidr_eq, Rule.text, cut, other, read, clamp]
      refine ⟨_, rfl, fun sa => ?_⟩
      cases sa with
      | inet addr port => simp [CidrBlock.covers, Rule.Contains, Network.Contains]
      | inet6 addr port =>
          simp only [CidrBlock.covers, Rule.Contains, Network.Contains, Network.width]
          rw [← masked6_iff]
          simp
      | other family => simp [CidrBlock.covers, Rule.Contains, Network.Contains]

def Parsed (lib : Library ρ) (rules : List Rule) (blocks : List CidrBlock) : Prop :=
  List.Forall₂ (fun r block => ∃ old, parseCidr lib r.text old = some block) rules blocks

theorem exists_covers_iff (documented : lib.Documented) {rules : List Rule} {blocks : List CidrBlock}
    (accepted : ∀ r ∈ rules, lib.Accepts r) (parsed : Parsed lib rules blocks) (sa : SockAddr) :
    (∃ block ∈ blocks, block.covers sa = true) ↔ ∃ r ∈ rules, r.Contains sa := by
  induction parsed with
  | nil => simp
  | cons first rest ih =>
      obtain ⟨old, read⟩ := first
      rw [List.forall_mem_cons] at accepted
      obtain ⟨block, read', covers⟩ := parseCidr_text documented accepted.1 old
      obtain rfl := Option.some.inj (read.symm.trans read')
      simp only [List.mem_cons, exists_eq_or_imp, covers, ih accepted.2]

theorem filterIsIpBlocked_iff {f : AddressFilter} (enabled : f.enabled = true) (sa : SockAddr) :
    filterIsIpBlocked f sa = true ↔ (∀ block ∈ f.allowIps, ¬ block.covers sa = true) ∧
      ∃ block ∈ f.denyIps, block.covers sa = true := by
  cases sa with
  | inet addr port => simp [filterIsIpBlocked, enabled]
  | inet6 addr port => simp [filterIsIpBlocked, enabled]
  | other family => simp [filterIsIpBlocked, CidrBlock.covers]

/-- The comparison with the block of a rule succeeds for the addresses that the rule contains, and
an address is blocked if it is denied and not allowed. -/
theorem ipBlocked_iff (documented : lib.Documented) {allows denies : List Rule}
    (accepted : ∀ r ∈ allows ++ denies, lib.Accepts r) {f : AddressFilter}
    (enabled : f.enabled = true) (allowed : Parsed lib allows f.allowIps)
    (denied : Parsed lib denies f.denyIps) (sa : SockAddr) :
    (∀ r ∈ allows ++ denies, ∀ old, ∃ block, parseCidr lib r.text old = some block ∧
        (block.covers sa = true ↔ r.Contains sa)) ∧
      (filterIsIpBlocked f sa = true ↔
        (∀ r ∈ allows, ¬ r.Contains sa) ∧ ∃ r ∈ denies, r.Contains sa) := by
  constructor
  · intro r member old
    obtain ⟨block, read, covers⟩ := parseCidr_text documented (accepted r member) old
    exact ⟨block, read, covers sa⟩
  · have allow := exists_covers_iff documented
      (fun r member => accepted r (List.mem_append_left _ member)) allowed sa
    have deny := exists_covers_iff documented
      (fun r member => accepted r (List.mem_append_right _ member)) denied sa
    have others := not_congr allow
    simp only [not_exists, not_and] at others
    rw [filterIsIpBlocked_iff enabled, others, deny]

def sampleLibrary : Library Unit where
  inetPton := inetPton4
  inetPton6 s :=
    if s = ascii "2001:db8::" then some fun j => ([0x20, 0x01, 0x0d, 0xb8] : Bytes).getD j 0
    else none
  regcomp _ := none
  regexec _ _ := false

theorem sampleLibrary_documented : sampleLibrary.Documented where
  inetPton s addr read := by
    obtain rfl := inetPton4_eq_some.mp read
    exact ⟨(dotted_shape addr).1, notMem_dotted (by decide) (by decide) addr⟩
  inetPton6 s addr read := by
    simp only [sampleLibrary, Option.ite_none_right_eq_some] at read
    obtain ⟨rfl, -⟩ := read
    decide

def tenNet : Rule := ⟨ascii "10.0.0.0", .v4 0x0a000000, some 8⟩

theorem ipBlocked_iff_ten :
    (∀ r ∈ [] ++ [tenNet], ∀ old, ∃ block, parseCidr sampleLibrary r.text old = some block ∧
        (block.covers (.inet 0x0a010203 80) = true ↔ r.Contains (.inet 0x0a010203 80))) ∧
      (filterIsIpBlocked ⟨true, [], [⟨0x0a000000, 0xff000000, false, fun _ => 0, fun _ => 0⟩]⟩
          (.inet 0x0a010203 80) = true ↔
        (∀ r ∈ [], ¬ Rule.Contains r (.inet 0x0a010203 80)) ∧
          ∃ r ∈ [tenNet], r.Contains (.inet 0x0a010203 80)) := by
  apply ipBlocked_iff sampleLibrary_documented
  · intro r member
    obtain rfl := List.mem_singleton.mp member
    have read : inetPton4 (ascii "10.0.0.0") = some 0x0a000000 := by decide
    exact ⟨read, by simp [tenNet, Network.width]⟩
  · rfl
  · exact .nil
  · exact .cons ⟨⟨0, 0, false, fun _ => 0, fun _ => 0⟩, rfl⟩ .nil

end Filter
end ProxyServer
