import ProxyServer.Accept
import ProxyServer.Decimal

namespace ProxyServer

def octets (a : UInt32) : List Nat :=
  [a.toNat / 2 ^ 24, a.toNat / 2 ^ 16 % 256, a.toNat / 2 ^ 8 % 256, a.toNat % 256]

def dotted (a : UInt32) : Bytes := [46].intercalate ((octets a).map printed)

theorem printed_byte : ∀ n < 256, octet (printed n) = some n ∧ atoi (printed n) = n ∧
    (printed n).length ≤ 3 ∧ (printed n).all isdigit = true := by
  decide +kernel

theorem octet_printed (n : Nat) (small : n < 256) : octet (printed n) = some n :=
  (printed_byte n small).1

theorem atoi_printed (n : Nat) (small : n < 256) : atoi (printed n) = n :=
  (printed_byte n small).2.1

theorem length_printed (n : Nat) (small : n < 256) : (printed n).length ≤ 3 :=
  (printed_byte n small).2.2.1

theorem isdigit_printed (n : Nat) (small : n < 256) : (printed n).all isdigit = true :=
  (printed_byte n small).2.2.2

theorem octets_lt {a : UInt32} {n : Nat} (member : n ∈ octets a) : n < 256 := by
  have word := a.toNat_lt
  simp only [octets, List.mem_cons, List.not_mem_nil, or_false] at member
  omega

theorem inetPton4_dotted (a : UInt32) : inetPton4 (dotted a) = some a := by
  have parts : (dotted a).splitOn 46 = (octets a).map printed := by
    apply List.splitOn_intercalate
    · intro part member dot
      obtain ⟨n, octet, rfl⟩ := List.mem_map.mp member
      simpa [isdigit] using List.all_eq_true.mp (isdigit_printed n (octets_lt octet)) 46 dot
    · simp [octets]
  have read (ns : List Nat) (small : ∀ n ∈ ns, n < 256) :
      (ns.map printed).mapM octet = some ns := by
    induction ns with
    | nil => rfl
    | cons n ns ih =>
        rw [List.forall_mem_cons] at small
        simp [octet_printed n small.1, ih small.2]
  rw [inetPton4, parts, read _ fun n => octets_lt]
  simp only [octets, Option.some.injEq]
  apply UInt32.toNat.inj
  have word := a.toNat_lt
  rw [UInt32.toNat_ofNat', Nat.mod_eq_of_lt] <;> omega

theorem dotted_injective : Function.Injective dotted := fun a b same =>
  Option.some.inj <| by rw [← inetPton4_dotted, ← inetPton4_dotted, same]

theorem octet_eq_some {s : Bytes} {n : Nat} : octet s = some n ↔ n < 256 ∧ s = printed n := by
  constructor
  · intro read
    rw [octet, Option.ite_none_right_eq_some] at read
    obtain ⟨⟨nonempty, digits, leading, small⟩, value⟩ := read
    rw [Option.some.injEq] at value
    rw [← value]
    exact ⟨Nat.lt_succ_of_le small, (printed_value digits nonempty leading).symm⟩
  · rintro ⟨small, rfl⟩
    exact octet_printed n small

theorem forall₂_octet {parts : List Bytes} {ns : List Nat} (read : parts.mapM octet = some ns) :
    List.Forall₂ (fun part n => octet part = some n) parts ns := by
  induction parts generalizing ns with
  | nil =>
      cases read
      exact .nil
  | cons part parts ih =>
      rw [List.mapM_cons] at read
      obtain ⟨n, first, later⟩ := Option.bind_eq_some_iff.mp read
      obtain ⟨ns, rest, same⟩ := Option.bind_eq_some_iff.mp later
      cases same
      exact .cons first (ih rest)

theorem inetPton4_eq_some {s : Bytes} {a : UInt32} : inetPton4 s = some a ↔ s = dotted a := by
  constructor
  · intro read
    unfold inetPton4 at read
    split at read
    · rename_i w x y z parts
      have whole : List.intercalate [46] (s.splitOn 46) = s := List.intercalate_splitOn 46
      generalize s.splitOn 46 = texts at parts whole
      obtain _ | ⟨p, _ | ⟨q, _ | ⟨r, _ | ⟨t, ⟨⟩⟩⟩⟩⟩ := forall₂_octet parts
      obtain ⟨smallW, rfl⟩ := octet_eq_some.mp p
      obtain ⟨smallX, rfl⟩ := octet_eq_some.mp q
      obtain ⟨smallY, rfl⟩ := octet_eq_some.mp r
      obtain ⟨smallZ, rfl⟩ := octet_eq_some.mp t
      have value : a.toNat = ((w * 256 + x) * 256 + y) * 256 + z := by
        rw [← Option.some.inj read, UInt32.toNat_ofNat', Nat.mod_eq_of_lt]
        omega
      have same : octets a = [w, x, y, z] := by
        simp only [octets, value, List.cons.injEq, and_true]
        omega
      rw [← whole, dotted, same]
      rfl
    · cases read
  · rintro rfl
    exact inetPton4_dotted a

theorem dotted_shape (a : UInt32) :
    (dotted a).length ≤ 15 ∧ ∀ c ∈ dotted a, c = 46 ∨ isdigit c = true := by
  have word := a.toNat_lt
  have part (n : Nat) (small : n < 256) :
      (printed n).length ≤ 3 ∧ ∀ c ∈ printed n, isdigit c = true :=
    ⟨length_printed n small, List.all_eq_true.mp (isdigit_printed n small)⟩
  obtain ⟨lengthW, digitsW⟩ := part (a.toNat / 2 ^ 24) (by omega)
  obtain ⟨lengthX, digitsX⟩ := part (a.toNat / 2 ^ 16 % 256) (by omega)
  obtain ⟨lengthY, digitsY⟩ := part (a.toNat / 2 ^ 8 % 256) (by omega)
  obtain ⟨lengthZ, digitsZ⟩ := part (a.toNat % 256) (by omega)
  simp only [dotted, octets, List.map_cons, List.map_nil, List.intercalate, List.intersperse,
    List.flatten_cons, List.flatten_nil, List.length_append, List.length_cons, List.length_nil,
    List.mem_append, List.mem_singleton]
  refine ⟨by omega, fun c member => ?_⟩
  grind

theorem notMem_dotted {c : UInt8} (other : c ≠ 46) (letter : isdigit c = false) (a : UInt32) :
    c ∉ dotted a := by
  intro member
  rcases (dotted_shape a).2 c member with dot | digit
  · exact other dot
  · simp [letter] at digit

end ProxyServer
