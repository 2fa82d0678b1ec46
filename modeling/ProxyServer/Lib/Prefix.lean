import Mathlib.Data.List.DropRight
import Mathlib.Data.List.Infix

namespace ProxyServer.Lib

variable {α : Type*}

theorem takeWhile_mono {p : α → Bool} {xs ys : List α} (isPrefix : xs <+: ys) :
    xs.takeWhile p <+: ys.takeWhile p := by
  obtain ⟨more, rfl⟩ := isPrefix
  rw [List.takeWhile_append]
  split
  · rename_i all
    rw [(List.takeWhile_prefix p).eq_of_length all]
    exact List.prefix_append _ _
  · exact List.prefix_refl _

theorem dropWhile_mono {p : α → Bool} {xs ys : List α} (isPrefix : xs <+: ys) :
    xs.dropWhile p <+: ys.dropWhile p := by
  obtain ⟨more, rfl⟩ := isPrefix
  rw [List.dropWhile_append]
  split
  · rename_i all
    rw [List.isEmpty_iff.mp all]
    exact List.nil_prefix
  · exact List.prefix_append _ _

theorem rdropWhile_append_prefix {p : α → Bool} (xs more : List α) :
    xs.rdropWhile p <+: (xs ++ more).rdropWhile p := by
  induction more using List.reverseRecOn with
  | nil => simp
  | append_singleton more last ih =>
      rw [← List.append_assoc]
      by_cases dropped : p last
      · rw [List.rdropWhile_concat_pos _ _ _ dropped]
        exact ih
      · rw [List.rdropWhile_concat_neg _ _ _ dropped, List.append_assoc]
        exact (List.rdropWhile_prefix _ _).trans (List.prefix_append _ _)

theorem rdropWhile_mono {p : α → Bool} {xs ys : List α} (isPrefix : xs <+: ys) :
    xs.rdropWhile p <+: ys.rdropWhile p := by
  obtain ⟨more, rfl⟩ := isPrefix
  exact rdropWhile_append_prefix xs more

variable [BEq α]

theorem splitOn_append (sep : α) (xs more : List α) : ∃ parts last first rest,
    xs.splitOn sep = parts ++ [last] ∧ more.splitOn sep = first :: rest ∧
      (xs ++ more).splitOn sep = parts ++ (last ++ first) :: rest := by
  induction xs with
  | nil =>
      obtain ⟨first, rest, splitMore⟩ := List.exists_cons_of_ne_nil (List.splitOn_ne_nil sep more)
      exact ⟨[], [], first, rest, by simp, splitMore, by simpa using splitMore⟩
  | cons x xs ih =>
      obtain ⟨parts, last, first, rest, split, splitMore, appended⟩ := ih
      simp only [List.cons_append, List.splitOn_cons_eq_if_modifyHead, split, appended]
      by_cases atSep : (x == sep) = true
      · exact ⟨[] :: parts, last, first, rest, by simp [atSep], splitMore, by simp [atSep]⟩
      · cases parts with
        | nil => exact ⟨[], x :: last, first, rest, by simp [atSep], splitMore, by simp [atSep]⟩
        | cons part parts =>
            exact ⟨(x :: part) :: parts, last, first, rest, by simp [atSep], splitMore,
              by simp [atSep]⟩

theorem splitOn_mono {sep : α} {xs ys part : List α} (isPrefix : xs <+: ys)
    (member : part ∈ xs.splitOn sep) : ∃ whole ∈ ys.splitOn sep, part <+: whole := by
  obtain ⟨more, rfl⟩ := isPrefix
  obtain ⟨parts, last, first, rest, split, _, appended⟩ := splitOn_append sep xs more
  rw [split, List.mem_append, List.mem_singleton] at member
  rw [appended]
  cases member with
  | inl earlier => exact ⟨part, by simp [earlier], List.prefix_refl _⟩
  | inr isLast =>
      refine ⟨last ++ first, by simp, ?_⟩
      rw [isLast]
      exact List.prefix_append _ _

theorem infix_of_mem_splitOn {sep : α} {xs piece : List α} (member : piece ∈ xs.splitOn sep) :
    piece <:+: xs := by
  have parts (xs : List α) : ∃ first rest, xs.splitOn sep = first :: rest ∧ first <+: xs ∧
      ∀ piece ∈ rest, piece <:+: xs := by
    induction xs with
    | nil => exact ⟨[], [], List.splitOn_nil .., List.prefix_refl _, by simp⟩
    | cons x xs ih =>
        obtain ⟨first, rest, split, starts, inside⟩ := ih
        have later : xs <:+: x :: xs := (List.suffix_cons x xs).isInfix
        rw [List.splitOn_cons_eq_if_modifyHead, split]
        split
        · refine ⟨[], first :: rest, rfl, List.nil_prefix, ?_⟩
          intro piece member
          cases List.mem_cons.mp member with
          | inl same => exact same ▸ starts.isInfix.trans later
          | inr other => exact (inside piece other).trans later
        · exact ⟨x :: first, rest, rfl, List.cons_prefix_cons.mpr ⟨rfl, starts⟩,
            fun piece other => (inside piece other).trans later⟩
  obtain ⟨first, rest, split, starts, inside⟩ := parts xs
  rw [split] at member
  cases List.mem_cons.mp member with
  | inl same => exact same ▸ starts.isInfix
  | inr other => exact inside piece other

variable [LawfulBEq α]

theorem splitOn_plain_append {sep : α} {plain : List α} (apart : sep ∉ plain) (xs : List α) :
    ∃ first rest, xs.splitOn sep = first :: rest ∧
      (plain ++ xs).splitOn sep = (plain ++ first) :: rest := by
  induction plain with
  | nil =>
      obtain ⟨first, rest, split⟩ := List.exists_cons_of_ne_nil (List.splitOn_ne_nil sep xs)
      exact ⟨first, rest, split, split⟩
  | cons x plain ih =>
      rw [List.mem_cons, not_or] at apart
      obtain ⟨first, rest, split, appended⟩ := ih apart.2
      have other : (x == sep) = false := beq_false_of_ne (Ne.symm apart.1)
      refine ⟨first, rest, split, ?_⟩
      rw [List.cons_append, List.splitOn_cons_eq_if_modifyHead, other, appended]
      rfl

theorem infix_iff_splitOn {sep : α} {needle xs : List α} (apart : sep ∉ needle) :
    needle <:+: xs ↔ ∃ piece ∈ xs.splitOn sep, needle <:+: piece := by
  constructor
  · rintro ⟨before, after, rfl⟩
    obtain ⟨first, rest, -, plain⟩ := splitOn_plain_append apart after
    obtain ⟨parts, last, first', rest', -, splitMore, appended⟩ :=
      splitOn_append sep before (needle ++ after)
    rw [plain] at splitMore
    obtain ⟨rfl, rfl⟩ := List.cons.inj splitMore
    rw [List.append_assoc, appended]
    exact ⟨last ++ (needle ++ first), by simp, last, first, by simp⟩
  · rintro ⟨piece, member, inside⟩
    exact inside.trans (infix_of_mem_splitOn member)

theorem splitOn_map {β : Type*} [BEq β] [LawfulBEq β] {f : α → β} {sep : α}
    (only : ∀ x, f x = f sep → x = sep) (xs : List α) :
    (xs.map f).splitOn (f sep) = (xs.splitOn sep).map (List.map f) := by
  induction xs with
  | nil => simp
  | cons x xs ih =>
      obtain ⟨first, rest, split⟩ := List.exists_cons_of_ne_nil (List.splitOn_ne_nil sep xs)
      rw [List.map_cons, List.splitOn_cons_eq_if_modifyHead, List.splitOn_cons_eq_if_modifyHead, ih,
        split]
      by_cases same : x = sep
      · simp [same]
      · have other : f x ≠ f sep := fun equal => same (only x equal)
        simp [same, other]

end ProxyServer.Lib
