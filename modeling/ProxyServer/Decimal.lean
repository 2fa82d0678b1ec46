import ProxyServer.CString

namespace ProxyServer

/-- `%d`, of a number that is not negative. -/
def printed (n : Nat) : Bytes := (Nat.toDigits 10 n).map fun c => c.toNat.toUInt8

theorem le_digits (s : Bytes) (n : Nat) :
    n ≤ s.foldl (fun n c => n * 10 + (c.toNat - 48)) n := by
  induction s generalizing n with
  | nil => exact le_rfl
  | cons c s ih => exact le_trans (by simp only; omega) (ih _)

theorem printed_digit : ∀ d < 10, printed d = [UInt8.ofNat (48 + d)] := by decide

theorem printed_append {n d : Nat} (positive : 0 < n) (digit : d < 10) :
    printed (n * 10 + d) = printed n ++ [UInt8.ofNat (48 + d)] := by
  rw [← printed_digit d digit, printed, printed, printed, ← List.map_append,
    Nat.toDigits_append_toDigits (by decide) positive digit, Nat.mul_comm]

theorem isdigit_value {c : UInt8} (digit : isdigit c = true) :
    c.toNat - 48 < 10 ∧ c = UInt8.ofNat (48 + (c.toNat - 48)) := by
  simp only [isdigit, Bool.and_eq_true, decide_eq_true_eq, UInt8.le_iff_toNat_le] at digit
  simp at digit
  refine ⟨by omega, UInt8.toNat.inj ?_⟩
  simp
  omega

theorem printed_value {s : Bytes} (digits : s.all isdigit = true) (nonempty : s ≠ [])
    (leading : s.head? ≠ some 48 ∨ s.length = 1) :
    printed (s.foldl (fun n c => n * 10 + (c.toNat - 48)) 0) = s := by
  induction s using List.reverseRecOn with
  | nil => exact absurd rfl nonempty
  | append_singleton s c ih =>
      rw [List.all_append, Bool.and_eq_true, List.all_cons, List.all_nil, Bool.and_true] at digits
      obtain ⟨small, shown⟩ := isdigit_value digits.2
      rw [List.foldl_append, List.foldl_cons, List.foldl_nil]
      cases s with
      | nil =>
          rw [List.foldl_nil, Nat.zero_mul, Nat.zero_add, printed_digit _ small, ← shown]
          rfl
      | cons d s =>
          have first : d ≠ 48 := by simpa using leading
          have positive : 0 < (d :: s).foldl (fun n c => n * 10 + (c.toNat - 48)) 0 := by
            have digit : isdigit d = true := List.all_eq_true.mp digits.1 d (by simp)
            have apart : d.toNat ≠ 48 := fun same => first (UInt8.toNat.inj same)
            simp only [isdigit, Bool.and_eq_true, decide_eq_true_eq, UInt8.le_iff_toNat_le] at digit
            refine lt_of_lt_of_le ?_ (le_digits s _)
            simp at digit ⊢
            omega
          rw [printed_append positive small, ih digits.1 (by simp) (.inl (by simpa using first)),
            ← shown]

def digitsValue (s : Bytes) : Nat := s.foldl (fun n c => n * 10 + (c.toNat - 48)) 0

theorem digitsValue_lt {s : Bytes} (digits : s.all isdigit = true) :
    digitsValue s < 10 ^ s.length := by
  induction s using List.reverseRecOn with
  | nil => decide
  | append_singleton s c ih =>
      rw [List.all_append, Bool.and_eq_true, List.all_cons, List.all_nil, Bool.and_true] at digits
      have small := (isdigit_value digits.2).1
      have front := ih digits.1
      rw [digitsValue] at front ⊢
      rw [List.foldl_append, List.foldl_cons, List.foldl_nil, List.length_append, List.length_singleton,
        Nat.pow_succ]
      omega

theorem ascii_toString (n : Nat) : ascii (toString n) = printed n := by
  rw [printed, ← ascii_ofList]
  rfl

theorem ascii_toString_int (n : Nat) : ascii (toString (n : Int)) = printed n := by
  rw [← ascii_toString]
  rfl

theorem ascii_toString_neg (n : Nat) :
    ascii (toString (Int.negSucc n)) = 45 :: printed (n + 1) := by
  have shown : toString (Int.negSucc n) = "-" ++ toString (n + 1) := rfl
  rw [shown, ascii, String.toList_append, List.map_append, ← ascii_toString]
  rfl

theorem printed_step {n : Nat} (large : 10 ≤ n) :
    printed n = printed (n / 10) ++ [UInt8.ofNat (48 + n % 10)] := by
  rw [← printed_append (by omega) (Nat.mod_lt n (by decide))]
  congr 1
  omega

theorem printed_digits (n : Nat) :
    (printed n).all isdigit = true ∧ printed n ≠ [] ∧ digitsValue (printed n) = n := by
  induction n using Nat.strongRecOn with
  | ind n ih =>
      have last : ∀ d < 10, isdigit (UInt8.ofNat (48 + d)) = true ∧
          (UInt8.ofNat (48 + d)).toNat - 48 = d := by decide
      by_cases large : 10 ≤ n
      · obtain ⟨digits, -, value⟩ := ih (n / 10) (by omega)
        obtain ⟨digit, shown⟩ := last (n % 10) (Nat.mod_lt n (by decide))
        rw [printed_step large]
        refine ⟨?_, by simp, ?_⟩
        · rw [List.all_append, digits, List.all_cons, digit]
          rfl
        · rw [digitsValue] at value ⊢
          rw [List.foldl_append, value, List.foldl_cons, List.foldl_nil, shown]
          omega
      · obtain ⟨digit, shown⟩ := last n (by omega)
        rw [printed_digit n (by omega)]
        refine ⟨?_, by simp, ?_⟩
        · rw [List.all_cons, digit]
          rfl
        · rw [digitsValue, List.foldl_cons, List.foldl_nil, shown]
          omega

theorem length_printed_le {n k : Nat} (small : n < 10 ^ (k + 1)) : (printed n).length ≤ k + 1 := by
  induction k generalizing n with
  | zero =>
      rw [printed_digit n small]
      exact le_rfl
  | succ k ih =>
      by_cases large : 10 ≤ n
      · have shorter : n / 10 < 10 ^ (k + 1) := by
          rw [Nat.pow_succ] at small
          omega
        have length := ih shorter
        rw [printed_step large, List.length_append, List.length_singleton]
        omega
      · rw [printed_digit n (by omega), List.length_singleton]
        omega

theorem lt_length_printed {n k : Nat} (large : 10 ^ k ≤ n) : k < (printed n).length := by
  obtain ⟨digits, -, value⟩ := printed_digits n
  have small := digitsValue_lt digits
  rw [value] at small
  exact (Nat.pow_lt_pow_iff_right (by decide)).mp (lt_of_le_of_lt large small)

theorem printed_leading {n : Nat} (zero : (printed n).head? = some 48) :
    (printed n).length = 1 := by
  obtain ⟨digits, -, value⟩ := printed_digits n
  obtain ⟨rest, isZero⟩ := List.head?_eq_some_iff.mp zero
  cases rest with
  | nil => rw [isZero, List.length_singleton]
  | cons d rest =>
      rw [isZero, List.all_cons, Bool.and_eq_true] at digits
      have same : digitsValue (48 :: d :: rest) = digitsValue (d :: rest) := rfl
      have small := digitsValue_lt digits.2
      rw [← same, ← isZero, value] at small
      have short := length_printed_le small
      rw [isZero, List.length_cons, List.length_cons] at short
      omega

theorem isdigit_ne {c : UInt8} (digit : isdigit c = true) :
    isspace c = false ∧ c ≠ 45 ∧ c ≠ 43 ∧ c ≠ 32 ∧ c ≠ 0 := by
  simp only [isdigit, Bool.and_eq_true, decide_eq_true_eq, UInt8.le_iff_toNat_le] at digit
  have apart (d : UInt8) (other : d.toNat < 48) : c ≠ d := by
    rintro rfl
    simp at digit
    omega
  refine ⟨?_, apart 45 (by decide), apart 43 (by decide), apart 32 (by decide),
    apart 0 (by decide)⟩
  simp only [isspace, Bool.or_eq_false_iff, beq_eq_false_iff_ne, Bool.and_eq_false_iff,
    decide_eq_false_iff_not, UInt8.le_iff_toNat_le]
  simp at digit ⊢
  exact ⟨apart 32 (by decide), Or.inr (by omega)⟩

theorem numberOf_digits {s : Bytes} (digits : s.all isdigit = true) :
    numberOf s = digitsValue s := by
  have all : s.takeWhile isdigit = s :=
    List.takeWhile_eq_self_iff.mpr (List.all_eq_true.mp digits)
  cases s with
  | nil => rfl
  | cons c s =>
      obtain ⟨visible, minus, plus, -⟩ := isdigit_ne (List.all_eq_true.mp digits c (by simp))
      have start : (c :: s).dropWhile isspace = c :: s := List.dropWhile_cons_of_neg (by simp [visible])
      simp only [numberOf, start]
      split
      · rename_i rest first
        exact absurd (List.cons.inj first).1 minus
      · rename_i rest first
        exact absurd (List.cons.inj first).1 plus
      · rw [if_neg (by simp), all]
        rfl

theorem numberOf_sign {s : Bytes} (digits : s.all isdigit = true) :
    numberOf (45 :: s) = -(digitsValue s : Int) ∧ numberOf (43 :: s) = digitsValue s := by
  have all : s.takeWhile isdigit = s :=
    List.takeWhile_eq_self_iff.mpr (List.all_eq_true.mp digits)
  have minus : (45 :: s).dropWhile isspace = 45 :: s := List.dropWhile_cons_of_neg (by decide)
  have plus : (43 :: s).dropWhile isspace = 43 :: s := List.dropWhile_cons_of_neg (by decide)
  simp only [numberOf, minus, plus, all]
  exact ⟨rfl, rfl⟩

theorem strtol_eq (s : Bytes) : strtol s = max (min (numberOf s) (2 ^ 63 - 1)) (-2 ^ 63) := by
  simp only [strtol, numberOf]
  split
  · rw [if_pos rfl, if_pos rfl]
    omega
  · rw [if_neg (by simp), if_neg (by simp)]
    omega
  · rw [if_neg (by simp), if_neg (by simp)]
    omega

end ProxyServer
