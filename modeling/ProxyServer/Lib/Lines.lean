import ProxyServer.CString

namespace ProxyServer.Lib.Lines

def crlf : Bytes := [13, 10]

def joined (lines : List Bytes) : Bytes := lines.flatMap (crlf ++ ·)

def terminated (lines : List Bytes) : Bytes := lines.flatMap (· ++ crlf)

@[simp] theorem joined_nil : joined [] = [] := rfl

@[simp] theorem joined_cons (line : Bytes) (lines : List Bytes) :
    joined (line :: lines) = crlf ++ (line ++ joined lines) := by
  simp [joined]

@[simp] theorem terminated_nil : terminated [] = [] := rfl

@[simp] theorem terminated_cons (line : Bytes) (lines : List Bytes) :
    terminated (line :: lines) = line ++ (crlf ++ terminated lines) := by
  simp [terminated]

theorem joined_append (lines more : List Bytes) :
    joined (lines ++ more) = joined lines ++ joined more :=
  List.flatMap_append

theorem length_le_terminated (lines : List Bytes) : lines.length ≤ (terminated lines).length := by
  induction lines with
  | nil => simp
  | cons line lines ih =>
      simp only [terminated_cons, List.length_append, List.length_cons, crlf]
      omega

theorem crlf_terminated (lines : List Bytes) : crlf ++ terminated lines = joined lines ++ crlf := by
  induction lines with
  | nil => simp
  | cons line lines ih => rw [terminated_cons, ih]; simp

theorem terminated_ends {lines : List Bytes} (nonempty : lines ≠ []) :
    crlf <:+ terminated lines := by
  obtain ⟨line, lines, rfl⟩ := List.exists_cons_of_ne_nil nonempty
  rw [terminated_cons, crlf_terminated, ← List.append_assoc]
  exact List.suffix_append _ _

theorem memmem_first {hay needle before rest : Bytes} (found : memmem hay needle = some rest)
    (split : hay = before ++ rest) {before' rest' : Bytes}
    (other : hay = before' ++ needle ++ rest') : before.length ≤ before'.length := by
  induction hay generalizing before before' with
  | nil =>
      have empty : before = [] := by simp_all
      simp [empty]
  | cons c hay ih =>
      rw [memmem_cons] at found
      split at found
      · cases found
        have empty : before = [] := by simpa using split.symm
        simp [empty]
      · rename_i notHere
        cases before' with
        | nil =>
            rw [List.isPrefixOf_iff_prefix] at notHere
            exact absurd ⟨rest', by simp [other]⟩ notHere
        | cons d before' =>
            cases before with
            | nil => simp
            | cons e before =>
                simp only [List.cons_append, List.cons.injEq] at split other
                simpa using ih found split.2 other.2

theorem not_infix_before {hay needle before rest : Bytes} (nonempty : needle ≠ [])
    (found : memmem hay needle = some rest) (split : hay = before ++ rest) :
    ¬ needle <:+: before := by
  rintro ⟨first, last, rfl⟩
  have other : hay = first ++ needle ++ (last ++ rest) := by simp [split]
  have early := memmem_first found split other
  have some : 0 < needle.length := List.length_pos_of_ne_nil nonempty
  simp only [List.length_append] at early
  omega

theorem memmem_line {line : Bytes} (clean : ¬ crlf <:+: line) (rest : Bytes) :
    memmem (line ++ (crlf ++ rest)) crlf = some (crlf ++ rest) := by
  induction line with
  | nil => simp [crlf, memmem_cons]
  | cons c line ih =>
      have notHere : ¬ crlf <+: c :: line ++ (crlf ++ rest) := by
        intro here
        cases line with
        | nil => simp [crlf] at here
        | cons d line =>
            simp only [crlf, List.cons_append, List.cons_prefix_cons, List.nil_prefix] at here
            obtain ⟨rfl, rfl, -⟩ := here
            exact clean ⟨[], line, rfl⟩
      rw [← List.isPrefixOf_iff_prefix] at notHere
      rw [List.cons_append, memmem_cons, ← List.cons_append, if_neg notHere]
      exact ih fun inside => clean (inside.trans (List.suffix_cons c line).isInfix)

theorem memmem_skip {c : UInt8} {s needle : Bytes} (first : needle.head? = some c)
    (absent : c ∉ s) (rest : Bytes) : memmem (s ++ rest) needle = memmem rest needle := by
  induction s with
  | nil => rfl
  | cons d s ih =>
      rw [List.mem_cons, not_or] at absent
      obtain ⟨needle, rfl⟩ := List.head?_eq_some_iff.mp first
      have other : ¬ (c :: needle).isPrefixOf (d :: s ++ rest) = true := by
        simp [absent.1]
      rw [List.cons_append, memmem_cons, ← List.cons_append, if_neg other, ih absent.2]

theorem memmem_joined {lines : List Bytes} (clean : ∀ line ∈ lines, line ≠ [] ∧ 13 ∉ line)
    (rest : Bytes) :
    memmem (joined lines ++ (crlf ++ crlf ++ rest)) (crlf ++ crlf) = some (crlf ++ crlf ++ rest) := by
  induction lines with
  | nil => simp [memmem_cons, crlf]
  | cons line lines ih =>
      rw [List.forall_mem_cons] at clean
      obtain ⟨⟨nonempty, noReturn⟩, later⟩ := clean
      obtain ⟨c, line, rfl⟩ := List.exists_cons_of_ne_nil nonempty
      have other : (13 : UInt8) ≠ c := fun same => noReturn (by simp [same])
      have split : joined ((c :: line) :: lines) ++ (crlf ++ crlf ++ rest) =
          13 :: 10 :: (c :: line ++ (joined lines ++ (crlf ++ crlf ++ rest))) := by
        simp [crlf]
      rw [split, memmem_cons, if_neg, memmem_cons, if_neg, memmem_skip rfl noReturn, ih later]
      · simp [crlf]
      · simp [crlf, other]

theorem memmem_section {first : Bytes} {lines : List Bytes} (clean : 13 ∉ first)
    (cleanLines : ∀ line ∈ lines, line ≠ [] ∧ 13 ∉ line) (rest : Bytes) :
    memmem (first ++ joined lines ++ (crlf ++ crlf ++ rest)) (crlf ++ crlf) =
      some (crlf ++ crlf ++ rest) := by
  rw [List.append_assoc, memmem_skip rfl clean, memmem_joined cleanLines]

def lineOf (text : Bytes) : Bytes :=
  match memmem text crlf with
  | none => text
  | some rest => text.take (text.length - rest.length)

theorem lineOf_of_found {text rest : Bytes} (found : memmem text crlf = some rest) :
    lineOf text = text.take (text.length - rest.length) := by
  simp only [lineOf, found]

theorem lineOf_begins (text : Bytes) : lineOf text <+: text := by
  rw [lineOf]
  split
  · exact List.prefix_refl _
  · exact List.take_prefix _ _

theorem lineOf_append {line : Bytes} (clean : ¬ crlf <:+: line) (rest : Bytes) :
    lineOf (line ++ (crlf ++ rest)) = line := by
  rw [lineOf_of_found (memmem_line clean rest), List.length_append, Nat.add_sub_cancel,
    List.take_left]

theorem lineOf_clean (text : Bytes) : ¬ crlf <:+: lineOf text := by
  rw [lineOf]
  split
  · rename_i none
    exact memmem_eq_none.mp none
  · rename_i rest found
    obtain ⟨before, rfl⟩ := memmem_suffix found
    rw [List.length_append, Nat.add_sub_cancel, List.take_left]
    exact not_infix_before (by decide) found rfl

theorem clean_append {s t : Bytes} (first : ¬ crlf <:+: s) (second : ¬ crlf <:+: t)
    (apart : s.getLast? = some 13 → t.head? ≠ some 10) : ¬ crlf <:+: s ++ t := by
  rintro ⟨before, after, split⟩
  rw [List.append_assoc] at split
  rcases List.append_eq_append_iff.mp split with ⟨gap, rfl, rest⟩ | ⟨gap, rfl, rfl⟩
  · match gap, rest with
    | [], rest => exact second ⟨[], after, rest⟩
    | [c], rest =>
        obtain ⟨rfl, rfl⟩ : 13 = c ∧ 10 :: after = t := by simpa [crlf] using rest
        exact apart (by simp) rfl
    | c :: d :: gap, rest =>
        obtain ⟨rfl, rfl, -⟩ : 13 = c ∧ 10 = d ∧ after = gap ++ t := by simpa [crlf] using rest
        exact first ⟨before, gap, by simp [crlf]⟩
  · exact second ⟨gap, after, by simp⟩

theorem exists_lines (text : Bytes) :
    ∃ first lines, text = first ++ joined lines ∧ ∀ line ∈ first :: lines, ¬ crlf <:+: line := by
  cases found : memmem text crlf with
  | none =>
      rw [memmem_eq_none] at found
      exact ⟨text, [], by simp, by simpa using found⟩
  | some rest =>
      obtain ⟨before, split⟩ := memmem_suffix found
      obtain ⟨after, starts⟩ := memmem_starts found
      have shorter : after.length < text.length := by
        rw [← split, ← starts]
        simp [crlf]
        omega
      obtain ⟨first, lines, isAfter, clean⟩ := exists_lines after
      refine ⟨before, first :: lines, ?_, ?_⟩
      · rw [joined_cons, ← isAfter, starts, split]
      · exact List.forall_mem_cons.mpr
          ⟨not_infix_before (by decide) found split.symm, clean⟩
termination_by text.length

def linesOf : Bytes → List Bytes
  | [] => [[]]
  | 13 :: 10 :: rest => [] :: linesOf rest
  | c :: rest => (linesOf rest).modifyHead (c :: ·)

theorem linesOf_cons {c : UInt8} {rest : Bytes} (apart : c = 13 → rest.head? ≠ some 10) :
    linesOf (c :: rest) = (linesOf rest).modifyHead (c :: ·) := by
  rw [linesOf]
  rintro rest' rfl rfl
  exact apart rfl rfl

theorem linesOf_ne_nil (text : Bytes) : linesOf text ≠ [] := by
  fun_induction linesOf text with
  | case1 => simp
  | case2 => simp
  | case3 c rest _ ih => simpa [List.modifyHead_eq_nil_iff] using ih

theorem head_apart {c : UInt8} {rest more : Bytes}
    (apart : ∀ rest', c = 13 → rest = 10 :: rest' → False) (boundary : more.head? ≠ some 10) :
    c = 13 → (rest ++ more).head? ≠ some 10 := by
  rintro rfl
  cases rest with
  | nil => exact boundary
  | cons d rest =>
      simp only [List.cons_append, List.head?_cons, ne_eq, Option.some.injEq]
      rintro rfl
      exact apart rest rfl rfl

theorem linesOf_append_crlf (text rest : Bytes) :
    linesOf (text ++ (crlf ++ rest)) = linesOf text ++ linesOf rest := by
  fun_induction linesOf text with
  | case1 => rfl
  | case2 more ih => exact congrArg ([] :: ·) ih
  | case3 c more apart ih =>
      obtain ⟨line, lines, split⟩ := List.exists_cons_of_ne_nil (linesOf_ne_nil more)
      rw [List.cons_append, linesOf_cons (head_apart apart (by simp [crlf])), ih, split]
      rfl

theorem linesOf_clean {line : Bytes} (clean : ¬ crlf <:+: line) : linesOf line = [line] := by
  fun_induction linesOf line with
  | case1 => rfl
  | case2 more ih => exact absurd ⟨[], more, rfl⟩ clean
  | case3 c more _ ih =>
      rw [ih fun inside => clean (inside.trans (List.suffix_cons c more).isInfix)]
      rfl

theorem linesOf_joined {first : Bytes} {lines : List Bytes}
    (clean : ∀ line ∈ first :: lines, ¬ crlf <:+: line) :
    linesOf (first ++ joined lines) = first :: lines := by
  induction lines generalizing first with
  | nil =>
      rw [joined_nil, List.append_nil]
      exact linesOf_clean (clean first List.mem_cons_self)
  | cons line lines ih =>
      rw [List.forall_mem_cons] at clean
      rw [joined_cons, linesOf_append_crlf, linesOf_clean clean.1, ih clean.2]
      rfl

theorem linesOf_append (text : Bytes) {more : Bytes} (boundary : more.head? ≠ some 10) :
    ∃ before last, linesOf text = before ++ [last] ∧
      linesOf (text ++ more) = before ++ (linesOf more).modifyHead (last ++ ·) := by
  fun_induction linesOf text with
  | case1 => exact ⟨[], [], rfl, List.modifyHead_id ▸ rfl⟩
  | case2 rest ih =>
      obtain ⟨before, last, split, appended⟩ := ih
      exact ⟨[] :: before, last, congrArg ([] :: ·) split, congrArg ([] :: ·) appended⟩
  | case3 c rest apart ih =>
      obtain ⟨before, last, split, appended⟩ := ih
      rw [List.cons_append, linesOf_cons (head_apart apart boundary), split, appended]
      cases before with
      | nil => exact ⟨[], c :: last, rfl, by simp [Function.comp_def]⟩
      | cons first before => exact ⟨(c :: first) :: before, last, rfl, rfl⟩

theorem mem_of_mem_linesOf {text line : Bytes} (member : line ∈ linesOf text) : line ⊆ text := by
  fun_induction linesOf text generalizing line with
  | case1 => simp_all
  | case2 more ih =>
      rcases List.mem_cons.mp member with rfl | member
      · exact List.nil_subset _
      · exact List.Subset.trans (ih member) fun c inside => by simp [inside]
  | case3 c more _ ih =>
      obtain ⟨first, lines, split⟩ := List.exists_cons_of_ne_nil (linesOf_ne_nil more)
      rw [split] at member ih
      rcases List.mem_cons.mp member with rfl | member
      · exact List.cons_subset_cons c (ih List.mem_cons_self)
      · exact List.Subset.trans (ih (List.mem_cons_of_mem _ member)) (List.subset_cons_self c more)

end ProxyServer.Lib.Lines
