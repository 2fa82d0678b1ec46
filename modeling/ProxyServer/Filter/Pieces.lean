import ProxyServer.Config.Precedence
import ProxyServer.Filter.Lists

namespace ProxyServer.Filter
open Config

def OneLine (line : Bytes) : Prop := ∀ before after, line = before ++ 10 :: after → after = []

theorem OneLine.of_append {xs ys : Bytes} (one : OneLine (xs ++ ys)) : OneLine ys := by
  rintro before after rfl
  exact one (xs ++ before) after (by simp)

theorem oneLine_fileLines (content : Bytes) : ∀ line ∈ fileLines content, OneLine line := by
  have grown {c : UInt8} (other : c ≠ 10) {line : Bytes} (one : OneLine line) :
      OneLine (c :: line) := by
    rintro (_ | ⟨d, before⟩) after split
    · exact absurd (List.cons.inj split).1 other
    · exact one before after (List.cons.inj split).2
  induction content with
  | nil => simp [fileLines]
  | cons c rest ih =>
      rw [fileLines]
      split
      · rename_i newline
        subst newline
        rw [List.forall_mem_cons]
        refine ⟨?_, ih⟩
        rintro (_ | ⟨d, before⟩) after split
        · exact (List.cons.inj split).2.symm
        · simp at split
      · rename_i other
        cases ended : fileLines rest with
        | nil =>
            rw [List.forall_mem_singleton]
            exact grown other fun before after split => by simp at split
        | cons line lines =>
            rw [ended, List.forall_mem_cons] at ih
            rw [List.forall_mem_cons]
            exact ⟨grown other ih.1, ih.2⟩

variable {size : Nat}

theorem fgetsAll_fileLines (line content : Bytes) :
    fgetsAll size line content =
      match fileLines content with
      | [] => fgetsAll size line []
      | first :: lines => fgetsAll size line first ++ lines.flatMap (fgetsAll size []) := by
  induction content generalizing line with
  | nil => rfl
  | cons c rest ih =>
      have fresh : fgetsAll size [] rest = (fileLines rest).flatMap (fgetsAll size []) := by
        rw [ih []]
        cases fileLines rest <;> simp [fgetsAll]
      by_cases newline : c = 10
      · simp [fileLines, fgetsAll, newline, fresh]
      · rw [fileLines, if_neg newline, fgetsAll]
        cases ended : fileLines rest with
        | nil =>
            simp [fgetsAll, newline, ih (line ++ [c]), ended, fresh]
        | cons first lines =>
            simp only [fgetsAll, newline, ih (line ++ [c]), ended, fresh]
            split <;> simp

theorem fgetsAll_eq (content : Bytes) :
    fgetsAll size [] content = (fileLines content).flatMap (fgetsAll size []) := by
  rw [fgetsAll_fileLines]
  cases fileLines content <;> simp [fgetsAll]

theorem fgetsAll_begun {begun line : Bytes} (room : begun.length < size - 1) (one : OneLine line)
    (given : begun ++ line ≠ []) :
    fgetsAll size begun line =
      (begun ++ line.take (size - 1 - begun.length)) ::
        fgetsAll size [] (line.drop (size - 1 - begun.length)) := by
  induction line generalizing begun with
  | nil =>
      rw [List.append_nil] at given
      simp [fgetsAll, given]
  | cons c rest ih =>
      obtain ⟨left, amount⟩ : ∃ left, size - 1 - begun.length = left + 1 :=
        ⟨size - 1 - begun.length - 1, by omega⟩
      rw [fgetsAll, amount, List.take_succ_cons, List.drop_succ_cons]
      by_cases cut : c = 10 ∨ (begun ++ [c]).length = size - 1
      · rw [if_pos cut]
        have whole : rest = [] ∨ left = 0 := by
          refine cut.imp (fun newline => ?_) fun full => ?_
          · exact one [] rest (by rw [newline]; rfl)
          · simp only [List.length_append, List.length_singleton] at full
            omega
        rcases whole with rfl | rfl <;> simp [fgetsAll]
      · rw [if_neg cut]
        have shorter : (begun ++ [c]).length = begun.length + 1 := by simp
        have more : size - 1 - (begun ++ [c]).length = left := by omega
        have later : OneLine rest := (show OneLine ([c] ++ rest) from one).of_append
        rw [ih (by omega) later (by simp), more]
        simp

theorem fgetsAll_line (two : 2 ≤ size) {line : Bytes} (one : OneLine line) (given : line ≠ []) :
    fgetsAll size [] line = line.take (size - 1) :: fgetsAll size [] (line.drop (size - 1)) := by
  have room : ([] : Bytes).length < size - 1 := by
    rw [List.length_nil]
    omega
  rw [fgetsAll_begun room one given]
  rfl

theorem fgetsAll_flatten (line content : Bytes) :
    (fgetsAll size line content).flatten = line ++ content := by
  induction content generalizing line with
  | nil =>
      rw [fgetsAll]
      split <;> simp_all
  | cons c rest ih =>
      rw [fgetsAll]
      split
      · simp [ih]
      · simp [ih]

theorem fgetsAll_length {line : Bytes} (room : line.length < size - 1) (content : Bytes) :
    ∀ piece ∈ fgetsAll size line content, piece.length ≤ size - 1 := by
  induction content generalizing line with
  | nil =>
      rw [fgetsAll]
      split
      · simp
      · simpa using room.le
  | cons c rest ih =>
      have grown : (line ++ [c]).length = line.length + 1 := by simp
      rw [fgetsAll]
      split
      · rw [List.forall_mem_cons]
        exact ⟨by omega, ih (by rw [List.length_nil]; omega)⟩
      · rename_i goesOn
        obtain ⟨-, more⟩ := not_or.mp goesOn
        exact ih (by omega)

def Blank (xs : Bytes) : Prop := ∀ c ∈ xs, isspace c = true

def ruleText (line : Bytes) : Option Bytes :=
  let p := line.dropWhile isspace
  if p.head? = some 35 ∨ p = [] then none else some (p.rdropWhile isspace)

theorem entryOf_eq (piece : Bytes) : entryOf piece = ruleText (cstr piece) := rfl

structure IsRule (text : Bytes) : Prop where
  starts : ∃ c rest, text = c :: rest ∧ isspace c = false ∧ c ≠ 35
  ends : ∃ front d, text = front ++ [d] ∧ isspace d = false

theorem rdropWhile_blank {text rest : Bytes}
    (ends : ∃ front d, text = front ++ [d] ∧ isspace d = false) (blank : Blank rest) :
    (text ++ rest).rdropWhile isspace = text := by
  obtain ⟨front, d, rfl, solid⟩ := ends
  have spaces : ∀ c ∈ rest.reverse, isspace c = true :=
    fun c member => blank c (List.mem_reverse.mp member)
  rw [List.rdropWhile, List.reverse_append, List.dropWhile_append_of_pos spaces,
    List.reverse_append, List.reverse_singleton, List.singleton_append,
    List.dropWhile_cons_of_neg (by simp [solid])]
  simp

theorem ruleText_padded {before text after : Bytes} (rule : IsRule text) (blank : Blank before)
    (blankAfter : Blank after) : ruleText (before ++ (text ++ after)) = some text := by
  have trimmed := rdropWhile_blank rule.ends blankAfter
  obtain ⟨c, rest, rfl, solid, plain⟩ := rule.starts
  have start : (before ++ (c :: rest ++ after)).dropWhile isspace = c :: rest ++ after := by
    rw [List.dropWhile_append_of_pos blank, List.cons_append,
      List.dropWhile_cons_of_neg (by simp [solid])]
  simp only [ruleText, start, trimmed]
  simp [plain]

theorem ruleText_eq_some {line text : Bytes} :
    ruleText line = some text ↔
      IsRule text ∧
        ∃ before after, Blank before ∧ Blank after ∧ line = before ++ (text ++ after) := by
  constructor
  · intro found
    have whole : line.takeWhile isspace ++ line.dropWhile isspace = line :=
      List.takeWhile_append_dropWhile
    cases rest : line.dropWhile isspace with
    | nil => simp [ruleText, rest] at found
    | cons c more =>
        have solid : isspace c = false := by
          have first := List.head?_dropWhile_not isspace line
          simpa [rest] using first
        simp only [ruleText, rest, List.head?_cons, Option.some.injEq, reduceCtorEq, or_false]
          at found
        split at found
        · cases found
        · rename_i plain
          have isText := Option.some.inj found
          have cut : text ++ (c :: more).rtakeWhile isspace = c :: more := by
            rw [← isText]
            exact List.rdropWhile_append_rtakeWhile
          have given : (c :: more).rdropWhile isspace ≠ [] := by
            rw [Ne, List.rdropWhile_eq_nil_iff]
            intro all
            simp [solid] at all
          have last := List.rdropWhile_last_not isspace (c :: more) given
          refine ⟨⟨?_, ?_⟩, line.takeWhile isspace, (c :: more).rtakeWhile isspace,
            fun d member => List.mem_takeWhile_imp member,
            fun d member => List.mem_rtakeWhile_imp member, ?_⟩
          · obtain ⟨d, front, rfl⟩ := List.exists_cons_of_ne_nil (isText ▸ given)
            obtain ⟨rfl, -⟩ := List.cons.inj cut
            exact ⟨d, front, rfl, solid, plain⟩
          · subst isText
            exact ⟨_, _, (List.dropLast_append_getLast given).symm, by simpa using last⟩
          · rw [cut, ← rest, whole]
  · rintro ⟨rule, before, after, blank, blankAfter, rfl⟩
    exact ruleText_padded rule blank blankAfter

theorem entryOf_blank {piece : Bytes} (blank : Blank piece) : entryOf piece = none := by
  have none : (cstr piece).dropWhile isspace = [] :=
    List.dropWhile_eq_nil_iff.mpr fun c member =>
      blank c ((List.takeWhile_prefix _).subset member)
  simp [entryOf, none]

theorem entryOf_rule {piece text : Bytes} (found : entryOf piece = some text) :
    IsRule text ∧ 0 ∉ text := by
  rw [entryOf_eq, ruleText_eq_some] at found
  obtain ⟨rule, before, after, -, -, split⟩ := found
  refine ⟨rule, fun zero => zero_notMem_cstr piece ?_⟩
  rw [split]
  exact List.mem_append_right _ (List.mem_append_left _ zero)

theorem zero_notMem_blank {xs : Bytes} (blank : Blank xs) : 0 ∉ xs := by
  intro zero
  exact absurd (blank 0 zero) (by decide)

theorem mem_fgetsAll_subset {line piece : Bytes} (member : piece ∈ fgetsAll size [] line) :
    piece ⊆ line := by
  have whole : (fgetsAll size [] line).flatten = line := fgetsAll_flatten [] line
  intro c inside
  rw [← whole]
  exact List.mem_flatten.mpr ⟨piece, member, inside⟩

theorem entries_blank {xs : Bytes} (blank : Blank xs) :
    (fgetsAll size [] xs).filterMap entryOf = [] :=
  List.filterMap_eq_nil_iff.mpr fun _ member =>
    entryOf_blank fun c inside => blank c (mem_fgetsAll_subset member inside)

/-- A text of this length that starts at this position of its line is in one piece. -/
def OnePiece (size start length : Nat) : Prop :=
  start / (size - 1) = (start + length - 1) / (size - 1)

theorem onePiece_add (two : 2 ≤ size) (start : Nat) {length : Nat} (given : 0 < length) :
    OnePiece size (start + (size - 1)) length ↔ OnePiece size start length := by
  have positive : 0 < size - 1 := by omega
  have shifted : start + (size - 1) + length - 1 = start + length - 1 + (size - 1) := by omega
  rw [OnePiece, OnePiece, shifted, Nat.add_div_right _ positive, Nat.add_div_right _ positive]
  exact Nat.succ_inj

theorem onePiece_short {start length : Nat} (begins : start < size - 1) (given : 0 < length) :
    OnePiece size start length ↔ start + length ≤ size - 1 := by
  rw [OnePiece, Nat.div_eq_of_lt begins, eq_comm, Nat.div_eq_zero_iff]
  omega

def solid (xs : Bytes) : Nat := xs.countP fun c => !isspace c

theorem solid_append (xs ys : Bytes) : solid (xs ++ ys) = solid xs + solid ys :=
  List.countP_append

theorem solid_blank {xs : Bytes} (blank : Blank xs) : solid xs = 0 :=
  List.countP_eq_zero.mpr fun c member => by simp [blank c member]

theorem solid_pos {xs : Bytes} {c : UInt8} (member : c ∈ xs) (isSolid : isspace c = false) :
    0 < solid xs :=
  List.countP_pos_iff.mpr ⟨c, member, by simp [isSolid]⟩

theorem entryOf_sublist {piece text : Bytes} (found : entryOf piece = some text) :
    text.Sublist piece := by
  rw [entryOf_eq, ruleText_eq_some] at found
  obtain ⟨-, before, after, -, -, split⟩ := found
  have inside : text <:+: cstr piece := ⟨before, after, by rw [split, List.append_assoc]⟩
  exact inside.sublist.trans (List.takeWhile_sublist _)

theorem entryOf_solid {piece text : Bytes} (found : entryOf piece = some text) :
    solid text ≤ solid piece :=
  (entryOf_sublist found).countP_le

theorem fgetsAll_solid {line piece : Bytes} (member : piece ∈ fgetsAll size [] line) :
    solid piece ≤ solid line := by
  have whole : (fgetsAll size [] line).flatten = line := fgetsAll_flatten [] line
  have inside := (List.sublist_flatten_of_mem member).countP_le (p := fun c => !isspace c)
  rwa [whole] at inside

theorem IsRule.solid_cut {text : Bytes} (rule : IsRule text) {k : Nat} (positive : 0 < k)
    (short : k < text.length) :
    solid (text.take k) < solid text ∧ solid (text.drop k) < solid text := by
  have sum : solid (text.take k) + solid (text.drop k) = solid text := by
    rw [← solid_append, List.take_append_drop]
  have first : 0 < solid (text.take k) := by
    obtain ⟨c, rest, rfl, isSolid, -⟩ := rule.starts
    obtain ⟨k, rfl⟩ := Nat.exists_eq_add_of_lt positive
    exact solid_pos (by simp) isSolid
  have last : 0 < solid (text.drop k) := by
    obtain ⟨front, d, rfl, isSolid⟩ := rule.ends
    rw [List.length_append, List.length_singleton] at short
    rw [List.drop_append_of_le_length (by omega)]
    exact solid_pos (by simp) isSolid
  omega

theorem IsRule.length_pos {text : Bytes} (rule : IsRule text) : 0 < text.length := by
  obtain ⟨c, rest, rfl, -⟩ := rule.starts
  exact Nat.succ_pos _

variable {before text after : Bytes}

/-- Where a whole buffer of spaces comes first, the line goes on as if it was not there. -/
theorem fgetsAll_padded (two : 2 ≤ size) (rule : IsRule text)
    (one : OneLine (before ++ (text ++ after))) (long : size - 1 ≤ before.length) :
    fgetsAll size [] (before ++ (text ++ after)) =
      before.take (size - 1) :: fgetsAll size [] (before.drop (size - 1) ++ (text ++ after)) := by
  have given : before ++ (text ++ after) ≠ [] :=
    List.ne_nil_of_length_pos (by have := rule.length_pos; simp; omega)
  rw [fgetsAll_line two one given, List.take_append_of_le_length long,
    List.drop_append_of_le_length long]

theorem fgetsAll_begins (two : 2 ≤ size) (rule : IsRule text)
    (one : OneLine (before ++ (text ++ after))) (short : before.length ≤ size - 1) :
    fgetsAll size [] (before ++ (text ++ after)) =
      (before ++ (text ++ after).take (size - 1 - before.length)) ::
        fgetsAll size [] ((text ++ after).drop (size - 1 - before.length)) := by
  have given : before ++ (text ++ after) ≠ [] :=
    List.ne_nil_of_length_pos (by have := rule.length_pos; simp; omega)
  rw [fgetsAll_line two one given, List.take_append, List.take_of_length_le short,
    List.drop_append, List.drop_of_length_le short, List.nil_append]

theorem Blank.drop {xs : Bytes} (blank : Blank xs) (n : Nat) : Blank (xs.drop n) :=
  fun c member => blank c (List.mem_of_mem_drop member)

theorem OneLine.skip (one : OneLine (before ++ (text ++ after))) (n : Nat) :
    OneLine (before.drop n ++ (text ++ after)) := by
  rw [← List.take_append_drop n before, List.append_assoc] at one
  exact one.of_append

theorem entries_onePiece {before : Bytes} (two : 2 ≤ size) (rule : IsRule text)
    (string : 0 ∉ text) (blank : Blank before) (blankAfter : Blank after)
    (one : OneLine (before ++ (text ++ after)))
    (within : OnePiece size before.length text.length) :
    (fgetsAll size [] (before ++ (text ++ after))).filterMap entryOf = [text] := by
  by_cases long : size - 1 ≤ before.length
  · have spaces : entryOf (before.take (size - 1)) = none :=
      entryOf_blank fun c member => blank c (List.mem_of_mem_take member)
    have later : OnePiece size (before.drop (size - 1)).length text.length := by
      rw [← onePiece_add two _ rule.length_pos, List.length_drop, Nat.sub_add_cancel long]
      exact within
    rw [fgetsAll_padded two rule one long, List.filterMap_cons, spaces]
    exact entries_onePiece two rule string (blank.drop _) blankAfter (one.skip _) later
  · have fits := (onePiece_short (not_le.mp long) rule.length_pos).mp within
    have inside : text.length ≤ size - 1 - before.length := by omega
    obtain ⟨k, room⟩ := Nat.exists_eq_add_of_le inside
    have first : entryOf (before ++ (text ++ after.take k)) = some text := by
      have noZero : 0 ∉ before ++ (text ++ after.take k) := by
        have front := zero_notMem_blank blank
        have back := zero_notMem_blank blankAfter
        simp only [List.mem_append, not_or]
        exact ⟨front, string, fun inside => back (List.mem_of_mem_take inside)⟩
      rw [entryOf_eq, cstr_of_string noZero]
      exact ruleText_padded rule blank fun c member => blankAfter c (List.mem_of_mem_take member)
    rw [fgetsAll_begins two rule one (not_le.mp long).le, room, List.take_append, List.drop_append,
      List.take_of_length_le (Nat.le_add_right _ _), List.drop_of_length_le (Nat.le_add_right _ _),
      Nat.add_sub_cancel_left, List.nil_append, List.filterMap_cons, first,
      entries_blank (blankAfter.drop k)]
termination_by before.length
decreasing_by
  rw [List.length_drop]
  omega

theorem solid_cut {before : Bytes} (two : 2 ≤ size) (rule : IsRule text) (blank : Blank before)
    (blankAfter : Blank after) (one : OneLine (before ++ (text ++ after)))
    (cut : ¬ OnePiece size before.length text.length) :
    ∀ piece ∈ fgetsAll size [] (before ++ (text ++ after)), solid piece < solid text := by
  by_cases long : size - 1 ≤ before.length
  · have some : 0 < solid text := by
      obtain ⟨c, rest, rfl, isSolid, -⟩ := rule.starts
      exact solid_pos List.mem_cons_self isSolid
    have later : ¬ OnePiece size (before.drop (size - 1)).length text.length := by
      rw [← onePiece_add two _ rule.length_pos, List.length_drop, Nat.sub_add_cancel long]
      exact cut
    rw [fgetsAll_padded two rule one long, List.forall_mem_cons]
    refine ⟨?_, solid_cut two rule (blank.drop _) blankAfter (one.skip _) later⟩
    rwa [solid_blank fun c member => blank c (List.mem_of_mem_take member)]
  · have short := not_le.mp long
    rw [onePiece_short short rule.length_pos] at cut
    have inside : size - 1 - before.length ≤ text.length := by omega
    obtain ⟨front, back⟩ := rule.solid_cut (show 0 < size - 1 - before.length by omega)
      (show size - 1 - before.length < text.length by omega)
    rw [fgetsAll_begins two rule one short.le, List.take_append_of_le_length inside,
      List.drop_append_of_le_length inside, List.forall_mem_cons]
    constructor
    · rw [solid_append, solid_blank blank, Nat.zero_add]
      exact front
    · intro piece member
      have most := fgetsAll_solid member
      rw [solid_append, solid_blank blankAfter, Nat.add_zero] at most
      exact most.trans_lt back
termination_by before.length
decreasing_by
  rw [List.length_drop]
  omega

end ProxyServer.Filter
