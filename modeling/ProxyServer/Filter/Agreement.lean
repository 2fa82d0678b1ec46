import ProxyServer.Auth.Access
import ProxyServer.Filter.Cidr

namespace ProxyServer.Filter
open Lib

variable {ρ : Type*} {lib : Library ρ}

/-! ## The two matchers -/

def InBlock (lib : Library ρ) (old : CidrBlock) (rule : Bytes) (a : UInt32) : Prop :=
  ∃ block, parseCidr lib rule old = some block ∧ block.isIpv6 = false ∧
    a &&& block.mask = block.addr

def OutOfRange (a : UInt32) (rule : Bytes) : Prop :=
  ∃ suffix, rule = dotted a ++ 47 :: suffix ∧ (atoi suffix < 0 ∨ 32 < atoi suffix)

theorem inBlock_iff (old : CidrBlock) (rule : Bytes) (a : UInt32) :
    InBlock lib old rule a ↔ ∃ net, lib.inetPton (cutSlash rule).1 = some net ∧
      SameLeading (clamped 32 (cutSlash rule).2) a.toBitVec net.toBitVec := by
  rw [InBlock, parseCidr_eq]
  cases lib.inetPton (cutSlash rule).1 with
  | none => cases lib.inetPton6 (cutSlash rule).1 <;> simp
  | some net =>
      simp only [Option.some.injEq, exists_eq_left', true_and]
      exact masked4_iff (clamped_le 32 _) a net

/-- The matchers agree on a rule unless it is the address itself with a prefix length out of range:
then one takes it for the whole address and the other for nothing. -/
theorem matchers_agree_iff (pton : lib.inetPton = inetPton4) (old : CidrBlock) (a : UInt32)
    {rule : Bytes} (short : rule.length ≤ 63) :
    (ipMatches (dotted a) rule = true ↔ InBlock lib old rule a) ↔ ¬ OutOfRange a rule := by
  have plain : 47 ∉ dotted a := notMem_dotted (by decide) (by decide) a
  rw [inBlock_iff, pton]
  by_cases slash : 47 ∈ rule
  · obtain ⟨literal, suffix, rfl, cut⟩ := List.eq_append_cons_of_mem slash
    rw [ipMatches_slash plain cut, cutSlash_slash (short.trans (by decide)) cut, inetPton4_dotted]
    have outside : OutOfRange a (literal ++ 47 :: suffix) ↔
        literal = dotted a ∧ (atoi suffix < 0 ∨ 32 < atoi suffix) := by
      constructor
      · rintro ⟨suffix', whole, range⟩
        have read := cutSlash_slash (short.trans (by decide)) cut
        rw [whole, cutSlash_slash (whole ▸ short.trans (by decide)) plain, Prod.mk.injEq] at read
        rw [← read.1, ← read.2]
        exact ⟨rfl, range⟩
      · rintro ⟨rfl, range⟩
        exact ⟨suffix, rfl, range⟩
    rw [outside]
    by_cases range : atoi suffix < 0 ∨ 32 < atoi suffix
    · have whole : clamped 32 (atoi suffix) = 32 := if_pos range
      have refused : ¬ (0 ≤ atoi suffix ∧ atoi suffix ≤ 32) := by omega
      simp only [whole, refused, false_and, false_iff, range, and_true, sameLeading_whole]
      refine not_congr ⟨?_, fun same => ⟨a, inetPton4_eq_some.mpr same, rfl⟩⟩
      rintro ⟨net, read, rfl⟩
      exact inetPton4_eq_some.mp read
    · have number : clamped 32 (atoi suffix) = (atoi suffix).toNat := if_neg range
      have inside : 0 ≤ atoi suffix ∧ atoi suffix ≤ 32 := by omega
      refine iff_of_true ?_ fun given => range given.2
      simp only [number, inside, and_self, true_and, Option.some.injEq]
      constructor
      · rintro ⟨_, net, rfl, read, same⟩
        exact ⟨net, read, same⟩
      · rintro ⟨net, read, same⟩
        exact ⟨a, net, rfl, read, same⟩
  · rw [ipMatches_bare _ slash, cutSlash_bare (short.trans (by decide)) slash]
    refine iff_of_true ?_ ?_
    · simp only [show clamped 32 (-1) = 32 from rfl, sameLeading_whole, exists_eq_right',
        inetPton4_eq_some]
      exact eq_comm
    · rintro ⟨suffix, rfl, -⟩
      exact slash (by simp)

theorem matchers_agree_ten :
    (ipMatches (dotted 0x0a010203) (ascii "10.0.0.0/8") = true ↔
        InBlock sampleLibrary ⟨0, 0, false, fun _ => 0, fun _ => 0⟩ (ascii "10.0.0.0/8")
          0x0a010203) ↔ ¬ OutOfRange 0x0a010203 (ascii "10.0.0.0/8") :=
  matchers_agree_iff rfl _ _ (by decide)

theorem prefix33_differs :
    ¬ (ipMatches (dotted 0x0a010203) (ascii "10.1.2.3/33") = true ↔
      InBlock sampleLibrary ⟨0, 0, false, fun _ => 0, fun _ => 0⟩ (ascii "10.1.2.3/33")
        0x0a010203) := by
  intro agree
  have refused : ipMatches (dotted 0x0a010203) (ascii "10.1.2.3/33") = false := by decide
  have inside : InBlock sampleLibrary ⟨0, 0, false, fun _ => 0, fun _ => 0⟩ (ascii "10.1.2.3/33")
      0x0a010203 := ⟨_, rfl, rfl, by decide⟩
  rw [agree.mpr inside] at refused
  cases refused

/-! ## The two forms of an address -/

def mappedText (a : UInt32) : Bytes := ascii "::ffff:" ++ dotted a

def mappedAddr (a : UInt32) (j : Fin 16) : UInt8 :=
  (List.replicate 10 0 ++ [255, 255] ++ (octets a).map UInt8.ofNat).getD j 0

/-- The line is the address, or a network that has it. -/
def Names (rule : Bytes) (a : UInt32) : Prop :=
  rule = dotted a ∨ ∃ net suffix, rule = dotted net ++ 47 :: suffix ∧
    (0 ≤ atoi suffix ∧ atoi suffix ≤ 32) ∧
    SameLeading (atoi suffix).toNat a.toBitVec net.toBitVec

theorem ipMatches_dotted (a : UInt32) (rule : Bytes) :
    ipMatches (dotted a) rule = true ↔ Names rule a := by
  have plain (b : UInt32) : 47 ∉ dotted b := notMem_dotted (by decide) (by decide) b
  by_cases slash : 47 ∈ rule
  · obtain ⟨literal, suffix, rfl, cut⟩ := List.eq_append_cons_of_mem slash
    have different : literal ++ 47 :: suffix ≠ dotted a := fun same => plain a (same ▸ slash)
    rw [ipMatches_slash (plain a) cut, Names, or_iff_right different]
    constructor
    · rintro ⟨range, address, net, read, literal_read, same⟩
      rw [inetPton4_dotted, Option.some.injEq] at read
      subst read
      exact ⟨net, suffix, by rw [inetPton4_eq_some.mp literal_read], range, same⟩
    · rintro ⟨net, suffix', whole, range, same⟩
      have both := (ipMatches_slash (plain a) (plain net) suffix').mpr
        ⟨range, a, net, inetPton4_dotted a, inetPton4_dotted net, same⟩
      rwa [← whole, ipMatches_slash (plain a) cut] at both
  · rw [ipMatches_bare _ slash, Names]
    constructor
    · rintro rfl
      exact .inl rfl
    · rintro (rfl | ⟨net, suffix, rfl, -⟩)
      · rfl
      · exact absurd (by simp) slash

theorem ipMatches_mapped (a : UInt32) (rule : Bytes) :
    ipMatches (mappedText a) rule = true ↔ rule = mappedText a := by
  have plain : 47 ∉ mappedText a := by
    rw [mappedText, List.mem_append, not_or]
    exact ⟨by decide, notMem_dotted (by decide) (by decide) a⟩
  have unread : inetPton4 (mappedText a) = none := by
    rw [Option.eq_none_iff_forall_ne_some]
    intro b read
    have colon : 58 ∈ dotted b := by
      rw [← inetPton4_eq_some.mp read, mappedText]
      exact List.mem_append_left _ (by decide)
    exact notMem_dotted (by decide) (by decide) b colon
  by_cases slash : 47 ∈ rule
  · obtain ⟨literal, suffix, rfl, cut⟩ := List.eq_append_cons_of_mem slash
    rw [ipMatches_slash plain cut, unread]
    refine iff_of_false (by simp) fun same => plain (same ▸ slash)
  · rw [ipMatches_bare _ slash]
    exact eq_comm

/-- A line that names one form of the address alone makes no difference. -/
structure LinesAgree (lists : AccessLists) (a : UInt32) : Prop where
  deny : (∃ rule ∈ lists.denyIps, Names rule a) → mappedText a ∉ lists.denyIps →
    lists.allowIps ≠ [] ∧ mappedText a ∉ lists.allowIps
  denyMapped : mappedText a ∈ lists.denyIps → (∀ rule ∈ lists.denyIps, ¬ Names rule a) →
    lists.allowIps ≠ [] ∧ ∀ rule ∈ lists.allowIps, ¬ Names rule a
  allow : (∃ rule ∈ lists.allowIps, Names rule a) → mappedText a ∉ lists.allowIps →
    ∃ rule ∈ lists.denyIps, Names rule a
  allowMapped : mappedText a ∈ lists.allowIps → (∀ rule ∈ lists.allowIps, ¬ Names rule a) →
    mappedText a ∈ lists.denyIps

def Has (a : UInt32) (block : CidrBlock) : Prop :=
  block.isIpv6 = false ∧ a &&& block.mask = block.addr

def HasMapped (a : UInt32) (block : CidrBlock) : Prop :=
  block.isIpv6 = true ∧ ∀ j, mappedAddr a j &&& block.mask6 j = block.addr6 j

/-- A block that has one form of the address alone makes no difference. -/
structure BlocksAgree (f : AddressFilter) (a : UInt32) : Prop where
  deny : (∃ block ∈ f.denyIps, Has a block) → (∀ block ∈ f.allowIps, ¬ Has a block) →
    ∃ block ∈ f.denyIps, HasMapped a block
  denyMapped : (∃ block ∈ f.denyIps, HasMapped a block) →
    (∀ block ∈ f.allowIps, ¬ HasMapped a block) → ∃ block ∈ f.denyIps, Has a block
  allow : (∃ block ∈ f.allowIps, Has a block) → (∃ block ∈ f.denyIps, HasMapped a block) →
    ∃ block ∈ f.allowIps, HasMapped a block
  allowMapped : (∃ block ∈ f.allowIps, HasMapped a block) → (∃ block ∈ f.denyIps, Has a block) →
    ∃ block ∈ f.allowIps, Has a block

theorem refused_iff {deny denyMapped allow allowMapped rules : Prop} (allows : allow → rules)
    (allowsMapped : allowMapped → rules) :
    (¬ deny ∧ (¬ rules ∨ allow) ↔ ¬ denyMapped ∧ (¬ rules ∨ allowMapped)) ↔
      (deny → ¬ denyMapped → rules ∧ ¬ allowMapped) ∧
        (denyMapped → ¬ deny → rules ∧ ¬ allow) ∧ (allow → ¬ allowMapped → deny) ∧
          (allowMapped → ¬ allow → denyMapped) := by
  grind

theorem linesAgree_iff (lists : AccessLists) (a : UInt32) :
    checkIpAllowed lists (dotted a) = checkIpAllowed lists (mappedText a) ↔ LinesAgree lists a := by
  have named (rules : List Bytes) : (∃ rule ∈ rules, rule = mappedText a) ↔ mappedText a ∈ rules :=
    exists_eq_right
  have given {P : Bytes → Prop} : (∃ rule ∈ lists.allowIps, P rule) → lists.allowIps ≠ [] := by
    rintro ⟨rule, member, -⟩
    exact List.ne_nil_of_mem member
  have notAny {P : Bytes → Prop} (rules : List Bytes) :
      (∀ rule ∈ rules, ¬ P rule) ↔ ¬ ∃ rule ∈ rules, P rule := by
    simp
  rw [Bool.eq_iff_iff, checkIpAllowed_iff, checkIpAllowed_iff]
  simp only [ipMatches_dotted, ipMatches_mapped, notAny, named]
  rw [← not_not (a := lists.allowIps = []),
    refused_iff given fun member => List.ne_nil_of_mem member]
  constructor
  · rintro ⟨deny, denyMapped, allow, allowMapped⟩
    refine ⟨deny, fun inside apart => ?_, allow, fun inside apart => ?_⟩
    · simpa only [notAny] using denyMapped inside ((notAny _).mp apart)
    · exact allowMapped inside ((notAny _).mp apart)
  · rintro ⟨deny, denyMapped, allow, allowMapped⟩
    simp only [notAny] at denyMapped allowMapped
    exact ⟨deny, denyMapped, allow, allowMapped⟩

theorem blocksAgree_iff {f : AddressFilter} (enabled : f.enabled = true) (a : UInt32)
    (port port' : UInt16) :
    filterIsIpBlocked f (.inet a port) = filterIsIpBlocked f (.inet6 (mappedAddr a) port') ↔
      BlocksAgree f a := by
  have plain (block : CidrBlock) : block.covers (.inet a port) = true ↔ Has a block := by
    simp [CidrBlock.covers, Has]
  have mapped (block : CidrBlock) :
      block.covers (.inet6 (mappedAddr a) port') = true ↔ HasMapped a block := by
    simp [CidrBlock.covers, HasMapped]
  have notAny {P : CidrBlock → Prop} (blocks : List CidrBlock) :
      (∀ block ∈ blocks, ¬ P block) ↔ ¬ ∃ block ∈ blocks, P block := by
    simp
  rw [Bool.eq_iff_iff, filterIsIpBlocked_iff enabled, filterIsIpBlocked_iff enabled]
  simp only [plain, mapped, notAny]
  constructor
  · intro same
    refine ⟨fun deny apart => ?_, fun deny apart => ?_, fun allow deny => ?_, fun allow deny => ?_⟩
    · exact (same.mp ⟨(notAny _).mp apart, deny⟩).2
    · exact (same.mpr ⟨(notAny _).mp apart, deny⟩).2
    · by_contra apart
      exact (same.mpr ⟨apart, deny⟩).1 allow
    · by_contra apart
      exact (same.mp ⟨apart, deny⟩).1 allow
  · rintro ⟨deny, denyMapped, allow, allowMapped⟩
    simp only [notAny] at deny denyMapped
    constructor
    · rintro ⟨apart, denied⟩
      exact ⟨fun inside => apart (allowMapped inside denied), deny denied apart⟩
    · rintro ⟨apart, denied⟩
      exact ⟨fun inside => apart (allow inside denied), denyMapped denied apart⟩

/-- Both verdicts on an address are those on its mapped form exactly if no line and no block tells
the two apart. -/
theorem addressForms_iff (lists : AccessLists) (f : AddressFilter) (a : UInt32)
    (port port' : UInt16) :
    (checkIpAllowed lists (dotted a) = checkIpAllowed lists (mappedText a) ∧
        filterIsIpBlocked f (.inet a port) = filterIsIpBlocked f (.inet6 (mappedAddr a) port')) ↔
      LinesAgree lists a ∧ (f.enabled = true → BlocksAgree f a) := by
  rw [linesAgree_iff]
  refine and_congr_right' ?_
  cases enabled : f.enabled with
  | false => simp [filterIsIpBlocked, enabled]
  | true =>
      rw [blocksAgree_iff enabled]
      exact ⟨fun agree _ => agree, fun agree => agree rfl⟩

theorem mapped_evades_deny :
    checkIpAllowed ⟨[], [ascii "10.0.0.0/8"]⟩ (dotted 0x0a010203) = false ∧
      checkIpAllowed ⟨[], [ascii "10.0.0.0/8"]⟩ (mappedText 0x0a010203) = true ∧
      filterIsIpBlocked ⟨true, [], [⟨0x0a000000, 0xff000000, false, fun _ => 0, fun _ => 0⟩]⟩
        (.inet 0x0a010203 80) = true ∧
      filterIsIpBlocked ⟨true, [], [⟨0x0a000000, 0xff000000, false, fun _ => 0, fun _ => 0⟩]⟩
        (.inet6 (mappedAddr 0x0a010203) 80) = false := by
  decide

end ProxyServer.Filter
