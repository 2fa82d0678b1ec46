import ProxyServer.CString

namespace ProxyServer.Lib.Json

inductive JsonValue where
  | null
  | bool (b : Bool)
  | number (digits : Bytes)
  | string (s : Bytes)
  | array (values : List JsonValue)
  | object (members : List (Bytes × JsonValue))

def isBlank (c : UInt8) : Bool := c == 32 || c == 9 || c == 10 || c == 13

def skip (s : Bytes) : Bytes := s.dropWhile isBlank

def Digits (s : Bytes) : Prop := s ≠ [] ∧ s.all isdigit = true

structure IsNumber (s : Bytes) : Prop where
  parts : ∃ sign whole fraction exponent, s = sign ++ (whole ++ (fraction ++ exponent)) ∧
    (sign = [] ∨ sign = [45]) ∧
    (Digits whole ∧ (whole.head? = some 48 → whole.length = 1)) ∧
    (fraction = [] ∨ ∃ digits, fraction = 46 :: digits ∧ Digits digits) ∧
    (exponent = [] ∨ ∃ e sign digits, exponent = e :: (sign ++ digits) ∧ (e = 69 ∨ e = 101) ∧
      (sign = [] ∨ sign = [43] ∨ sign = [45]) ∧ Digits digits)

def isxdigit (c : UInt8) : Bool := isdigit c || (65 ≤ c && c ≤ 70) || (97 ≤ c && c ≤ 102)

def hexDigit (c : UInt8) : Nat :=
  if isdigit c then c.toNat - 48 else (tolower c).toNat - 87

structure CodeUnit where
  bytes : Bytes
  four : bytes.length = 4
  digits : bytes.all isxdigit = true

def CodeUnit.value (u : CodeUnit) : Nat := u.bytes.foldl (fun n c => n * 16 + hexDigit c) 0

def escapes : List (UInt8 × UInt8) :=
  [(34, 34), (92, 92), (47, 47), (98, 8), (102, 12), (110, 10), (114, 13), (116, 9)]

inductive ReadsChars : Bytes → Bytes → Bytes → Prop
  | close (rest) : ReadsChars (34 :: rest) [] rest
  | plain {c s v rest} : 32 ≤ c → c ≠ 34 → c ≠ 92 → ReadsChars s v rest →
      ReadsChars (c :: s) (c :: v) rest
  | escape {c d s v rest} : (c, d) ∈ escapes → ReadsChars s v rest →
      ReadsChars (92 :: c :: s) (d :: v) rest
  | char {u : CodeUnit} {c : Char} {s v rest} : u.value = c.toNat → ReadsChars s v rest →
      ReadsChars (92 :: 117 :: (u.bytes ++ s)) (String.utf8EncodeChar c ++ v) rest
  | surrogates {high low : CodeUnit} {c : Char} {s v rest} : 0x10000 ≤ c.toNat →
      high.value = 0xD800 + (c.toNat - 0x10000) / 0x400 →
      low.value = 0xDC00 + (c.toNat - 0x10000) % 0x400 → ReadsChars s v rest →
      ReadsChars (92 :: 117 :: (high.bytes ++ 92 :: 117 :: (low.bytes ++ s)))
        (String.utf8EncodeChar c ++ v) rest

def literals : List (Bytes × JsonValue) :=
  [(ascii "null", .null), (ascii "true", .bool true), (ascii "false", .bool false)]

mutual

inductive Reads : Bytes → JsonValue → Bytes → Prop
  | literal {name v} (rest) : (name, v) ∈ literals → Reads (name ++ rest) v rest
  | number {n} (rest) : IsNumber n → Reads (n ++ rest) (.number n) rest
  | string {s v rest} : ReadsChars s v rest → Reads (34 :: s) (.string v) rest
  | emptyArray {s rest} : skip s = 93 :: rest → Reads (91 :: s) (.array []) rest
  | array {s values rest} : ReadsElements s values rest → Reads (91 :: s) (.array values) rest
  | emptyObject {s rest} : skip s = 125 :: rest → Reads (123 :: s) (.object []) rest
  | object {s members rest} : ReadsMembers s members rest → Reads (123 :: s) (.object members) rest

inductive ReadsElements : Bytes → List JsonValue → Bytes → Prop
  | last {s v t rest} : Reads (skip s) v t → skip t = 93 :: rest → ReadsElements s [v] rest
  | more {s v t u values rest} : Reads (skip s) v t → skip t = 44 :: u →
      ReadsElements u values rest → ReadsElements s (v :: values) rest

inductive ReadsMembers : Bytes → List (Bytes × JsonValue) → Bytes → Prop
  | last {s a name b c v d rest} : skip s = 34 :: a → ReadsChars a name b → skip b = 58 :: c →
      Reads (skip c) v d → skip d = 125 :: rest → ReadsMembers s [(name, v)] rest
  | more {s a name b c v d e members rest} : skip s = 34 :: a → ReadsChars a name b →
      skip b = 58 :: c → Reads (skip c) v d → skip d = 44 :: e → ReadsMembers e members rest →
      ReadsMembers s ((name, v) :: members) rest

end

def Utf8 (s : Bytes) : Prop := ∃ chars : List Char, s = chars.flatMap String.utf8EncodeChar

structure IsObject (text : Bytes) (members : List (Bytes × JsonValue)) : Prop where
  utf8 : Utf8 text
  reads : ∃ rest, Reads (skip text) (.object members) rest ∧ skip rest = []
  distinct : (members.map (·.1)).Nodup

/-! ## Strings without escapes -/

def Clean (s : Bytes) : Prop := ∀ c ∈ s, 32 ≤ c ∧ c ≠ 34 ∧ c ≠ 92

theorem Clean.chars {s : Bytes} (clean : Clean s) (rest : Bytes) :
    ReadsChars (s ++ 34 :: rest) s rest := by
  induction s with
  | nil => exact .close rest
  | cons c s ih =>
      rw [Clean, List.forall_mem_cons] at clean
      exact .plain clean.1.1 clean.1.2.1 clean.1.2.2 (ih clean.2)

theorem length_encode (c : Char) : (String.utf8EncodeChar c).length ≤ 4 := by
  rw [String.length_utf8EncodeChar]
  exact c.utf8Size_le_four

theorem CodeUnit.count_quote (u : CodeUnit) : u.bytes.count 34 = 0 := by
  rw [List.count_eq_zero]
  intro inside
  exact absurd (List.all_eq_true.mp u.digits 34 inside) (by decide)

theorem ReadsChars.raw {text v rest : Bytes} (reads : ReadsChars text v rest) :
    ∃ raw, text = raw ++ 34 :: rest ∧ raw.count 34 ≤ v.count 34 ∧
      (Clean raw ∧ v = raw ∨ v.length < raw.length) := by
  induction reads with
  | close rest => exact ⟨[], rfl, le_rfl, Or.inl ⟨by simp [Clean], rfl⟩⟩
  | @plain c s v rest visible quote escape reads ih =>
      obtain ⟨raw, rfl, quotes, same | shorter⟩ := ih
      · obtain ⟨clean, rfl⟩ := same
        refine ⟨c :: v, rfl, le_rfl, Or.inl ⟨?_, rfl⟩⟩
        exact List.forall_mem_cons.mpr ⟨⟨visible, quote, escape⟩, clean⟩
      · refine ⟨c :: raw, rfl, ?_, Or.inr (Nat.succ_lt_succ shorter)⟩
        rw [List.count_cons, List.count_cons]
        exact Nat.add_le_add_right quotes _
  | @escape c d s v rest listed reads ih =>
      obtain ⟨raw, rfl, quotes, length⟩ := ih
      have kept : ∀ e ∈ escapes, e.1 = 34 → e.2 = 34 := by decide
      refine ⟨92 :: c :: raw, rfl, ?_, Or.inr ?_⟩
      · have one := kept _ listed
        simp only [List.count_cons]
        grind
      · have le : v.length ≤ raw.length := length.elim (fun same => same.2 ▸ le_rfl) Nat.le_of_lt
        simp
        omega
  | @char u c s v rest value reads ih =>
      obtain ⟨raw, rfl, quotes, length⟩ := ih
      have le : v.length ≤ raw.length := length.elim (fun same => same.2 ▸ le_rfl) Nat.le_of_lt
      refine ⟨92 :: 117 :: (u.bytes ++ raw), by simp, ?_, Or.inr ?_⟩
      · simp [List.count_append, u.count_quote]
        omega
      · have short := length_encode c
        have four := u.four
        simp only [List.length_cons, List.length_append]
        omega
  | @surrogates high low c s v rest _ _ _ reads ih =>
      obtain ⟨raw, rfl, quotes, length⟩ := ih
      have le : v.length ≤ raw.length := length.elim (fun same => same.2 ▸ le_rfl) Nat.le_of_lt
      refine ⟨92 :: 117 :: (high.bytes ++ 92 :: 117 :: (low.bytes ++ raw)), by simp, ?_, Or.inr ?_⟩
      · simp [List.count_append, high.count_quote, low.count_quote]
        omega
      · have short := length_encode c
        have four := high.four
        simp only [List.length_cons, List.length_append]
        omega

theorem cons_of_prefix {x t : Bytes} {c : UInt8} (nonempty : x ≠ []) (isPrefix : x <+: c :: t) :
    ∃ y, x = c :: y ∧ y <+: t := by
  obtain ⟨d, y, rfl⟩ := List.exists_cons_of_ne_nil nonempty
  obtain ⟨rfl, more⟩ := List.cons_prefix_cons.mp isPrefix
  exact ⟨y, rfl, more⟩

theorem ReadsChars.nonempty {text v rest : Bytes} (reads : ReadsChars text v rest) : text ≠ [] := by
  cases reads <;> simp

theorem ReadsChars.of_clean {s text v rest t : Bytes} (clean : Clean s)
    (reads : ReadsChars text v rest) (isPrefix : text <+: s ++ 34 :: t) :
    v = s ∧ text = s ++ 34 :: rest ∧ rest <+: t := by
  induction s generalizing text v with
  | nil =>
      obtain ⟨y, rfl, more⟩ := cons_of_prefix reads.nonempty isPrefix
      cases reads with
      | close => exact ⟨rfl, rfl, more⟩
      | plain _ quote => exact absurd rfl quote
  | cons c s ih =>
      rw [Clean, List.forall_mem_cons] at clean
      obtain ⟨⟨-, quote, escape⟩, clean⟩ := clean
      obtain ⟨y, rfl, more⟩ := cons_of_prefix reads.nonempty isPrefix
      cases reads with
      | close => exact absurd rfl quote
      | plain _ _ _ reads =>
          obtain ⟨rfl, rfl, after⟩ := ih clean reads more
          exact ⟨rfl, rfl, after⟩
      | escape => exact absurd rfl escape
      | char => exact absurd rfl escape
      | surrogates => exact absurd rfl escape

theorem ReadsChars.of_self {s text rest t : Bytes} (reads : ReadsChars text s rest)
    (isPrefix : text <+: s ++ 34 :: t) : Clean s ∧ text = s ++ 34 :: rest ∧ rest <+: t := by
  obtain ⟨raw, rfl, quotes, ⟨clean, rfl⟩ | shorter⟩ := reads.raw
  · rw [List.prefix_append_right_inj, List.cons_prefix_cons] at isPrefix
    exact ⟨clean, rfl, isPrefix.2⟩
  · have inside : s ++ [34] <+: raw := by
      have starts : s ++ [34] <+: s ++ 34 :: t := ⟨t, by simp⟩
      apply List.prefix_of_prefix_length_le starts
      · exact (List.prefix_append _ _).trans isPrefix
      · rw [List.length_append, List.length_singleton]
        exact shorter
    have more := inside.sublist.count_le 34
    simp at more
    omega

/-! ## Numbers -/

def inNumber (c : UInt8) : Bool :=
  isdigit c || c == 43 || c == 45 || c == 46 || c == 69 || c == 101

theorem Digits.inNumber {s : Bytes} (digits : Digits s) : s.all inNumber = true := by
  rw [List.all_eq_true]
  intro c inside
  simp [Json.inNumber, List.all_eq_true.mp digits.2 c inside]

theorem IsNumber.inNumber {n : Bytes} (number : IsNumber n) : n.all inNumber = true := by
  obtain ⟨sign, whole, fraction, exponent, rfl, signs, ⟨digits, -⟩, fractions, exponents⟩ :=
    number.parts
  simp only [List.all_append, digits.inNumber, Bool.true_and, Bool.and_eq_true]
  refine ⟨?_, ?_, ?_⟩
  · rcases signs with rfl | rfl <;> rfl
  · rcases fractions with rfl | ⟨digits, rfl, all⟩
    · rfl
    · rw [List.all_cons, all.inNumber]
      rfl
  · rcases exponents with rfl | ⟨e, sign, digits, rfl, letter, signs, all⟩
    · rfl
    · rw [List.all_cons, List.all_append, all.inNumber]
      rcases letter with rfl | rfl <;> rcases signs with rfl | rfl | rfl <;> rfl

theorem IsNumber.first {n : Bytes} (number : IsNumber n) :
    ∃ c rest, n = c :: rest ∧ (isdigit c = true ∨ c = 45) := by
  obtain ⟨sign, whole, fraction, exponent, rfl, signs, ⟨⟨nonempty, digits⟩, -⟩, -⟩ := number.parts
  obtain ⟨c, rest, rfl⟩ := List.exists_cons_of_ne_nil nonempty
  rcases signs with rfl | rfl
  · exact ⟨c, _, rfl, Or.inl (List.all_eq_true.mp digits c List.mem_cons_self)⟩
  · exact ⟨45, _, rfl, Or.inr rfl⟩

theorem inNumber_apart {c : UInt8} (inside : inNumber c = true) :
    isBlank c = false ∧ c ≠ 44 ∧ c ≠ 125 := by
  refine ⟨?_, ?_, ?_⟩
  · by_contra blank
    simp only [isBlank, Bool.not_eq_false, Bool.or_eq_true, beq_iff_eq] at blank
    rcases blank with ((rfl | rfl) | rfl) | rfl <;> exact absurd inside (by decide)
  · rintro rfl
    exact absurd inside (by decide)
  · rintro rfl
    exact absurd inside (by decide)

/-! ## The members of an object -/

inductive Shown where
  | text (s : Bytes)
  | number (digits : Bytes)

def Shown.value : Shown → JsonValue
  | .text s => .string s
  | .number digits => .number digits

def Shown.bytes : Shown → Bytes
  | .text s => 34 :: (s ++ [34])
  | .number digits => digits

def Shown.contents : Shown → Bytes
  | .text s => s
  | .number digits => digits

def Shown.Plain : Shown → Prop
  | .text s => Clean s
  | .number digits => IsNumber digits

def fieldText (field : Bytes × Shown) (rest : Bytes) : Bytes :=
  34 :: (field.1 ++ 34 :: 58 :: (field.2.bytes ++ rest))

def fieldsText : List (Bytes × Shown) → Bytes → Bytes
  | [], rest => 125 :: rest
  | [field], rest => fieldText field (125 :: rest)
  | field :: fields, rest => fieldText field (44 :: fieldsText fields rest)

theorem skip_of_prefix {x t y : Bytes} {c d : UInt8} (visible : isBlank d = false)
    (isPrefix : x <+: d :: t) (skipped : skip x = c :: y) : c = d ∧ x = d :: y ∧ y <+: t := by
  have nonempty : x ≠ [] := by
    rintro rfl
    simp [skip] at skipped
  obtain ⟨z, rfl, more⟩ := cons_of_prefix nonempty isPrefix
  rw [skip, List.dropWhile_cons_of_neg (by simp [visible])] at skipped
  obtain ⟨rfl, rfl⟩ := List.cons.inj skipped
  exact ⟨rfl, rfl, more⟩

theorem literal_first {name : Bytes} {v : JsonValue} (listed : (name, v) ∈ literals) :
    ∃ c rest, name = c :: rest ∧ 97 ≤ c ∧ c ≤ 122 := by
  simp only [literals, List.mem_cons, Prod.mk.injEq, List.not_mem_nil, or_false] at listed
  rcases listed with ⟨rfl, -⟩ | ⟨rfl, -⟩ | ⟨rfl, -⟩
  · exact ⟨110, _, rfl, by decide⟩
  · exact ⟨116, _, rfl, by decide⟩
  · exact ⟨102, _, rfl, by decide⟩

theorem Reads.nonempty {text rest : Bytes} {v : JsonValue} (reads : Reads text v rest) :
    text ≠ [] := by
  cases reads with
  | number rest number =>
      obtain ⟨c, more, rfl, -⟩ := number.first
      simp
  | literal rest listed =>
      obtain ⟨c, more, rfl, -⟩ := literal_first listed
      simp
  | _ => simp

theorem skip_reads {x t rest : Bytes} {c : UInt8} {v : JsonValue} (visible : isBlank c = false)
    (isPrefix : x <+: c :: t) (reads : Reads (skip x) v rest) : Reads x v rest := by
  obtain ⟨d, y, skipped⟩ := List.exists_cons_of_ne_nil reads.nonempty
  obtain ⟨rfl, rfl, -⟩ := skip_of_prefix visible isPrefix skipped
  rwa [skipped] at reads

theorem Reads.text {text rest : Bytes} {v : JsonValue} (reads : Reads (34 :: text) v rest) :
    ∃ s, v = .string s ∧ ReadsChars text s rest := by
  generalize given : 34 :: text = whole at reads
  cases reads with
  | string chars =>
      obtain ⟨-, rfl⟩ := List.cons.inj given
      exact ⟨_, rfl, chars⟩
  | number rest number =>
      obtain ⟨c, more, rfl, digit⟩ := number.first
      obtain ⟨rfl, -⟩ := List.cons.inj given
      exact absurd digit (by decide)
  | literal rest listed =>
      obtain ⟨c, more, rfl, letter⟩ := literal_first listed
      obtain ⟨rfl, -⟩ := List.cons.inj given
      exact absurd letter (by decide)
  | _ => exact absurd (List.cons.inj given).1 (by decide)

theorem Reads.number_of_first {text rest : Bytes} {c : UInt8} {v : JsonValue}
    (first : isdigit c = true ∨ c = 45) (reads : Reads (c :: text) v rest) :
    ∃ digits, v = .number digits ∧ IsNumber digits ∧ c :: text = digits ++ rest := by
  generalize given : c :: text = whole at reads
  cases reads with
  | number rest number => exact ⟨_, rfl, number, rfl⟩
  | literal rest listed =>
      obtain ⟨d, more, rfl, letter⟩ := literal_first listed
      obtain ⟨rfl, -⟩ := List.cons.inj given
      have notDigit : ¬ (isdigit c = true ∨ c = 45) := by
        simp only [isdigit, Bool.and_eq_true, decide_eq_true_eq, UInt8.le_iff_toNat_le,
          ← UInt8.toNat_inj] at letter ⊢
        simp at letter ⊢
        omega
      exact absurd first notDigit
  | _ =>
      obtain ⟨rfl, -⟩ := List.cons.inj given
      exact absurd first (by decide)

theorem Reads.number_begins {n x t d rest : Bytes} {c e : UInt8} {v : JsonValue}
    (number : IsNumber n) (reads : Reads x v d) (isPrefix : x <+: n ++ c :: t)
    (stops : inNumber c = false) (next : skip d = e :: rest) (stop : inNumber e = false) :
    v = .number n ∧ x = n ++ d ∧ d <+: c :: t := by
  obtain ⟨first, more, isNumber, digit⟩ := number.first
  obtain ⟨y, rfl, -⟩ : ∃ y, x = first :: y ∧ y <+: more ++ c :: t :=
    cons_of_prefix reads.nonempty (by simpa [isNumber] using isPrefix)
  obtain ⟨m, rfl, number', split⟩ := reads.number_of_first digit
  rw [split] at isPrefix ⊢
  have whole : n ++ [c] <+: n ++ c :: t := ⟨t, by simp⟩
  have notWhole : ¬ n ++ [c] <+: m := by
    intro long
    have inside := List.all_eq_true.mp number'.inNumber c (long.subset (by simp))
    exact absurd inside (by simp [stops])
  have short : m <+: n ++ [c] :=
    (List.prefix_or_prefix_of_prefix ((List.prefix_append m d).trans isPrefix) whole).resolve_right
      notWhole
  obtain ⟨k, rfl⟩ : m <+: n :=
    (List.prefix_concat_iff.mp short).resolve_left fun same => notWhole (same ▸ List.prefix_rfl)
  rw [List.append_assoc, List.prefix_append_right_inj] at isPrefix
  cases k with
  | nil => exact ⟨by simp, by simp, isPrefix⟩
  | cons f k =>
      -- What is left would begin within the number.
      have inside : inNumber f = true := List.all_eq_true.mp number.inNumber f (by simp)
      obtain ⟨rfl, -⟩ := skip_of_prefix (inNumber_apart inside).1 isPrefix next
      exact absurd inside (by simp [stop])

theorem member_of_prefix {field : Bytes × Shown} {s a name b x d rest t : Bytes}
    {v : JsonValue} {c e : UInt8} (key : Clean field.1)
    (known : field.2.Plain ∨ ∃ text, field.2 = .text text ∧ (name = field.1 → v = .string text))
    (isPrefix : s <+: fieldText field (c :: t)) (quote : skip s = 34 :: a)
    (names : ReadsChars a name b) (colon : skip b = 58 :: x) (reads : Reads (skip x) v d)
    (next : skip d = e :: rest) (stops : c = 44 ∨ c = 125) (stop : e = 44 ∨ e = 125) :
    name = field.1 ∧ v = field.2.value ∧ field.2.Plain ∧ e = c ∧ rest <+: t ∧
      s = fieldText field (c :: rest) := by
  have ends {c : UInt8} (stops : c = 44 ∨ c = 125) : inNumber c = false ∧ isBlank c = false := by
    rcases stops with rfl | rfl <;> decide
  obtain ⟨-, rfl, afterQuote⟩ := skip_of_prefix (by decide) isPrefix quote
  obtain ⟨rfl, rfl, afterName⟩ := names.of_clean key afterQuote
  obtain ⟨-, rfl, afterColon⟩ := skip_of_prefix (by decide) afterName colon
  have shown : v = field.2.value ∧ field.2.Plain ∧ x = field.2.bytes ++ d ∧ d <+: c :: t := by
    cases isShown : field.2 with
    | text text =>
        rw [isShown] at afterColon known
        have opens : x <+: 34 :: (text ++ 34 :: c :: t) := by simpa [Shown.bytes] using afterColon
        have reads' := skip_reads (by decide) opens reads
        obtain ⟨y, rfl, afterOpen⟩ := cons_of_prefix reads'.nonempty opens
        obtain ⟨s, rfl, chars⟩ := reads'.text
        have plain : Clean text ∧ s = text := by
          rcases known with clean | ⟨_, same, known⟩
          · exact ⟨clean, (chars.of_clean clean afterOpen).1⟩
          · obtain rfl := Shown.text.inj same
            obtain rfl := JsonValue.string.inj (known rfl)
            exact ⟨(chars.of_self afterOpen).1, rfl⟩
        obtain ⟨clean, rfl⟩ := plain
        obtain ⟨-, rfl, after⟩ := chars.of_clean clean afterOpen
        exact ⟨rfl, clean, by simp [Shown.bytes], after⟩
    | number digits =>
        rw [isShown] at afterColon known
        have number : IsNumber digits := by
          rcases known with number | ⟨_, same, -⟩
          · exact number
          · cases same
        obtain ⟨first, more, isNumber, digit⟩ := number.first
        have visible : isBlank first = false :=
          (inNumber_apart (List.all_eq_true.mp number.inNumber first (by simp [isNumber]))).1
        have opens : x <+: first :: (more ++ c :: t) := by
          simpa [Shown.bytes, isNumber] using afterColon
        obtain ⟨rfl, rfl, after⟩ := (skip_reads visible opens reads).number_begins number
          afterColon (ends stops).1 next (ends stop).1
        exact ⟨rfl, number, rfl, after⟩
  obtain ⟨rfl, plain, rfl, afterValue⟩ := shown
  obtain ⟨rfl, rfl, after⟩ := skip_of_prefix (ends stops).2 afterValue next
  exact ⟨rfl, rfl, plain, rfl, after, rfl⟩

def Kept (fields : List (Bytes × Shown)) (members : List (Bytes × JsonValue)) : Prop :=
  ∀ field ∈ fields, field.2.Plain ∨
    ∃ text, field.2 = .text text ∧ members.lookup field.1 = some (.string text)

theorem Kept.head {field : Bytes × Shown} {fields : List (Bytes × Shown)} {name : Bytes}
    {v : JsonValue} {members : List (Bytes × JsonValue)}
    (kept : Kept (field :: fields) ((name, v) :: members)) :
    field.2.Plain ∨ ∃ text, field.2 = .text text ∧ (name = field.1 → v = .string text) := by
  rcases kept field List.mem_cons_self with plain | ⟨text, shown, found⟩
  · exact Or.inl plain
  · refine Or.inr ⟨text, shown, ?_⟩
    rintro rfl
    simpa using found

theorem Kept.tail {field : Bytes × Shown} {fields : List (Bytes × Shown)} {v : JsonValue}
    {members : List (Bytes × JsonValue)} (distinct : field.1 ∉ fields.map (·.1))
    (kept : Kept (field :: fields) ((field.1, v) :: members)) : Kept fields members := by
  intro other member
  have apart : other.1 ≠ field.1 := fun same => distinct (same ▸ List.mem_map_of_mem member)
  rcases kept other (List.mem_cons_of_mem _ member) with plain | ⟨text, shown, found⟩
  · exact Or.inl plain
  · refine Or.inr ⟨text, shown, ?_⟩
    rwa [List.lookup_cons, beq_eq_false_iff_ne.mpr apart] at found

theorem ReadsMembers.of_prefix {fields : List (Bytes × Shown)} {s rest t : Bytes}
    {members : List (Bytes × JsonValue)} (nonempty : fields ≠ [])
    (keys : ∀ field ∈ fields, Clean field.1) (distinct : (fields.map (·.1)).Nodup)
    (kept : Kept fields members) (isPrefix : s <+: fieldsText fields t)
    (reads : ReadsMembers s members rest) :
    (∀ field ∈ fields, field.2.Plain) ∧ rest <+: t ∧ s = fieldsText fields rest := by
  induction fields generalizing s members with
  | nil => exact absurd rfl nonempty
  | cons field fields ih =>
      rw [List.forall_mem_cons] at keys
      rw [List.map_cons, List.nodup_cons] at distinct
      cases fields with
      | nil =>
          cases reads with
          | last quote names colon value next =>
              obtain ⟨rfl, -, plain, -, after, whole⟩ := member_of_prefix keys.1 kept.head
                isPrefix quote names colon value next (Or.inr rfl) (Or.inr rfl)
              exact ⟨by simpa using plain, after, whole⟩
          | more quote names colon value next =>
              obtain ⟨-, -, -, comma, -⟩ := member_of_prefix keys.1 kept.head isPrefix quote
                names colon value next (Or.inr rfl) (Or.inl rfl)
              exact absurd comma (by decide)
      | cons field' fields =>
          cases reads with
          | last quote names colon value next =>
              obtain ⟨-, -, -, comma, -⟩ := member_of_prefix keys.1 kept.head isPrefix quote
                names colon value next (Or.inl rfl) (Or.inr rfl)
              exact absurd comma (by decide)
          | more quote names colon value next reads =>
              obtain ⟨rfl, -, plain, -, after, whole⟩ := member_of_prefix keys.1 kept.head
                isPrefix quote names colon value next (Or.inl rfl) (Or.inl rfl)
              obtain ⟨plains, rest, rfl⟩ := ih (by simp) keys.2 distinct.2
                (kept.tail distinct.1) after reads
              exact ⟨List.forall_mem_cons.mpr ⟨plain, plains⟩, rest, whole⟩

theorem readsMembers_fields {fields : List (Bytes × Shown)} (nonempty : fields ≠ [])
    (keys : ∀ field ∈ fields, Clean field.1) (plain : ∀ field ∈ fields, field.2.Plain)
    (rest : Bytes) : ReadsMembers (fieldsText fields rest)
      (fields.map fun field => (field.1, field.2.value)) rest := by
  induction fields with
  | nil => exact absurd rfl nonempty
  | cons field fields ih =>
      rw [List.forall_mem_cons] at keys plain
      have value (more : Bytes) : Reads (skip (field.2.bytes ++ more)) field.2.value more := by
        cases isShown : field.2 with
        | text text =>
            have clean : Clean text := by simpa [isShown, Shown.Plain] using plain.1
            have opens : skip (34 :: (text ++ [34]) ++ more) = 34 :: (text ++ 34 :: more) := by
              rw [List.cons_append, skip, List.dropWhile_cons_of_neg (by decide)]
              simp
            rw [Shown.bytes, opens]
            exact .string (clean.chars more)
        | number digits =>
            have number : IsNumber digits := by simpa [isShown, Shown.Plain] using plain.1
            obtain ⟨c, after, isNumber, -⟩ := number.first
            have visible : isBlank c = false :=
              (inNumber_apart (List.all_eq_true.mp number.inNumber c (by simp [isNumber]))).1
            have opens : skip (digits ++ more) = digits ++ more := by
              rw [isNumber, List.cons_append, skip, List.dropWhile_cons_of_neg (by simp [visible])]
            rw [Shown.bytes, opens]
            exact .number more number
      cases fields with
      | nil => exact .last rfl (keys.1.chars _) rfl (value _) rfl
      | cons field' fields =>
          exact .more rfl (keys.1.chars _) rfl (value _) rfl (ih (by simp) keys.2 plain.2)

/-! ## UTF-8 -/

theorem encode_ascii {c : UInt8} {char : Char} (small : c < 128)
    (inside : c ∈ String.utf8EncodeChar char) : String.utf8EncodeChar char = [c] := by
  have large (n base : Nat) (least : 128 ≤ base) (fits : n + base < 256) :
      c ≠ UInt8.ofNat (n + base) := by
    rintro rfl
    rw [UInt8.lt_iff_toNat_lt, UInt8.toNat_ofNat'] at small
    simp at small
    omega
  revert inside
  fun_cases String.utf8EncodeChar char with
  | case1 v one =>
      rw [List.mem_singleton]
      rintro rfl
      rfl
  | case2 v =>
      intro inside
      have first := large (v / 64 % 32) 192 (by decide) (by omega)
      have last := large (v % 64) 128 (by decide) (by omega)
      simp only [List.mem_cons, first, last, List.not_mem_nil, or_self] at inside
  | case3 v =>
      intro inside
      have first := large (v / 4096 % 16) 224 (by decide) (by omega)
      have middle := large (v / 64 % 64) 128 (by decide) (by omega)
      have last := large (v % 64) 128 (by decide) (by omega)
      simp only [List.mem_cons, first, middle, last, List.not_mem_nil, or_self] at inside
  | case4 v =>
      intro inside
      have first := large (v / 262144 % 8) 240 (by decide) (by omega)
      have second := large (v / 4096 % 64) 128 (by decide) (by omega)
      have third := large (v / 64 % 64) 128 (by decide) (by omega)
      have last := large (v % 64) 128 (by decide) (by omega)
      simp only [List.mem_cons, first, second, third, last, List.not_mem_nil, or_self] at inside

theorem Utf8.append {s t : Bytes} (first : Utf8 s) (second : Utf8 t) : Utf8 (s ++ t) := by
  obtain ⟨chars, rfl⟩ := first
  obtain ⟨more, rfl⟩ := second
  exact ⟨chars ++ more, by simp⟩

theorem utf8_ascii {s : Bytes} (small : ∀ c ∈ s, c < 128) : Utf8 s := by
  induction s with
  | nil => exact ⟨[], rfl⟩
  | cons c s ih =>
      rw [List.forall_mem_cons] at small
      have codes : ∀ n < 128, String.utf8EncodeChar (Char.ofNat n) = [UInt8.ofNat n] := by decide
      have one : Utf8 [c] := by
        refine ⟨[Char.ofNat c.toNat], ?_⟩
        rw [List.flatMap_singleton, codes _ (UInt8.lt_iff_toNat_lt.mp small.1), UInt8.ofNat_toNat]
      exact one.append (ih small.2)

theorem utf8_append {s t : Bytes} {c : UInt8} (small : c < 128) :
    Utf8 (s ++ c :: t) ↔ Utf8 s ∧ Utf8 t := by
  constructor
  · rintro ⟨chars, whole⟩
    induction chars generalizing s with
    | nil => simp at whole
    | cons char chars ih =>
        rw [List.flatMap_cons] at whole
        rcases List.append_eq_append_iff.mp whole with ⟨gap, isCode, rest⟩ | ⟨gap, rfl, rest⟩
        · cases gap with
          | nil =>
              obtain ⟨first, second⟩ := ih (s := []) (by simpa using rest)
              exact ⟨⟨[char], by simpa using isCode.symm⟩, second⟩
          | cons d gap =>
              obtain ⟨rfl, rfl⟩ := List.cons.inj rest
              have alone : s ++ c :: gap = [c] := isCode ▸ encode_ascii small (by simp [isCode])
              cases s with
              | nil =>
                  obtain rfl : gap = [] := (List.cons.inj alone).2
                  exact ⟨⟨[], rfl⟩, chars, rfl⟩
              | cons e s => simpa using congrArg List.length alone
        · obtain ⟨⟨before, rfl⟩, second⟩ := ih rest.symm
          exact ⟨⟨char :: before, rfl⟩, second⟩
  · rintro ⟨first, second⟩
    have one : Utf8 [c] := utf8_ascii (by simpa using small)
    simpa using first.append (one.append second)

theorem utf8_cons {t : Bytes} {c : UInt8} (small : c < 128) : Utf8 (c :: t) ↔ Utf8 t := by
  have empty : Utf8 [] := ⟨[], rfl⟩
  simpa [empty] using utf8_append (s := []) (t := t) small

theorem utf8_fieldText {field : Bytes × Shown} {rest : Bytes} {c : UInt8} (small : c < 128) :
    Utf8 (fieldText field (c :: rest)) ↔
      Utf8 field.1 ∧ Utf8 field.2.contents ∧ Utf8 rest := by
  rw [fieldText, utf8_cons (by decide), utf8_append (by decide), utf8_cons (by decide)]
  cases field.2 with
  | text s =>
      rw [Shown.bytes, List.cons_append, List.append_assoc, utf8_cons (by decide),
        List.singleton_append, utf8_append (by decide), utf8_cons small]
      rfl
  | number digits =>
      rw [Shown.bytes, utf8_append small]
      rfl

theorem utf8_fieldsText {fields : List (Bytes × Shown)} (nonempty : fields ≠ []) (rest : Bytes) :
    Utf8 (fieldsText fields rest) ↔
      (∀ field ∈ fields, Utf8 field.1 ∧ Utf8 field.2.contents) ∧ Utf8 rest := by
  induction fields with
  | nil => exact absurd rfl nonempty
  | cons field fields ih =>
      cases fields with
      | nil =>
          rw [fieldsText, utf8_fieldText (by decide)]
          simp [and_assoc]
      | cons field' fields =>
          have split : fieldsText (field :: field' :: fields) rest =
              fieldText field (44 :: fieldsText (field' :: fields) rest) := rfl
          have all : (∀ f ∈ field :: field' :: fields, Utf8 f.1 ∧ Utf8 f.2.contents) ↔ _ :=
            List.forall_mem_cons
          rw [split, utf8_fieldText (by decide), ih (by simp), all]
          simp only [and_assoc]

/-! ## Objects that are written without escapes -/

theorem Reads.members {text rest : Bytes} {members : List (Bytes × JsonValue)}
    (reads : Reads (123 :: text) (.object members) rest) :
    skip text = 125 :: rest ∨ ReadsMembers text members rest := by
  generalize given : 123 :: text = whole at reads
  cases reads with
  | emptyObject closes =>
      obtain ⟨-, rfl⟩ := List.cons.inj given
      exact Or.inl closes
  | object reads =>
      obtain ⟨-, rfl⟩ := List.cons.inj given
      exact Or.inr reads
  | literal rest listed =>
      obtain ⟨c, more, rfl, letter⟩ := literal_first listed
      obtain ⟨rfl, -⟩ := List.cons.inj given
      exact absurd letter (by decide)

structure Names (fields : List (Bytes × Shown)) : Prop where
  nonempty : fields ≠ []
  clean : ∀ field ∈ fields, Clean field.1
  utf8 : ∀ field ∈ fields, Utf8 field.1
  distinct : (fields.map (·.1)).Nodup

theorem fieldsText_first {fields : List (Bytes × Shown)} (nonempty : fields ≠ []) (rest : Bytes) :
    ∃ more, fieldsText fields rest = 34 :: more := by
  cases fields with
  | nil => exact absurd rfl nonempty
  | cons field fields => cases fields <;> exact ⟨_, rfl⟩

theorem fieldText_append (field : Bytes × Shown) (rest more : Bytes) :
    fieldText field (rest ++ more) = fieldText field rest ++ more := by
  simp [fieldText]

theorem fieldsText_append {fields : List (Bytes × Shown)} (rest : Bytes) :
    fieldsText fields rest = fieldsText fields [] ++ rest := by
  induction fields with
  | nil => rfl
  | cons field fields ih =>
      cases fields with
      | nil => exact fieldText_append field [125] rest
      | cons field' fields =>
          have split (rest : Bytes) : fieldsText (field :: field' :: fields) rest =
              fieldText field (44 :: fieldsText (field' :: fields) rest) := rfl
          rw [split, split, ih, ← fieldText_append]
          rfl

theorem fieldsText_ends (fields : List (Bytes × Shown)) : [125] <:+ fieldsText fields [] := by
  induction fields with
  | nil => exact List.suffix_rfl
  | cons field fields ih =>
      cases fields with
      | nil => exact ⟨fieldText field [], (fieldText_append field [] [125]).symm⟩
      | cons field' fields =>
          have tail : fieldsText (field' :: fields) [] <:+
              fieldsText (field :: field' :: fields) [] :=
            ⟨fieldText field [44], (fieldText_append field [44] _).symm⟩
          exact ih.trans tail

def Visible (s : Bytes) : Prop := ∀ c ∈ s, 32 ≤ c

theorem Clean.visible {s : Bytes} (clean : Clean s) : Visible s := fun c inside =>
  (clean c inside).1

theorem inNumber_range {c : UInt8} (inside : inNumber c = true) : 32 ≤ c ∧ c < 128 := by
  simp only [inNumber, isdigit, Bool.or_eq_true, Bool.and_eq_true, decide_eq_true_eq,
    beq_iff_eq] at inside
  rcases inside with ((((⟨least, most⟩ | rfl) | rfl) | rfl) | rfl) | rfl
  · exact ⟨UInt8.le_trans (b := 48) (by decide) least, UInt8.lt_of_le_of_lt most (by decide)⟩
  all_goals decide

theorem IsNumber.visible {n : Bytes} (number : IsNumber n) : Visible n := fun c inside =>
  (inNumber_range (List.all_eq_true.mp number.inNumber c inside)).1

theorem IsNumber.utf8 {n : Bytes} (number : IsNumber n) : Utf8 n :=
  utf8_ascii fun c inside => (inNumber_range (List.all_eq_true.mp number.inNumber c inside)).2

theorem visible_fieldText {field : Bytes × Shown} {rest : Bytes} (clean : Clean field.1)
    (plain : field.2.Plain) (visible : Visible rest) : Visible (fieldText field rest) := by
  have shown : Visible field.2.bytes := by
    cases isShown : field.2 with
    | text s =>
        have cleanText : Clean s := by simpa [isShown, Shown.Plain] using plain
        refine List.forall_mem_cons.mpr ⟨by decide, ?_⟩
        exact List.forall_mem_append.mpr ⟨cleanText.visible, by simp⟩
    | number digits =>
        have number : IsNumber digits := by simpa [isShown, Shown.Plain] using plain
        exact number.visible
  rw [fieldText, Visible, List.forall_mem_cons, List.forall_mem_append, List.forall_mem_cons,
    List.forall_mem_cons, List.forall_mem_append]
  exact ⟨by decide, clean.visible, by decide, by decide, shown, visible⟩

theorem visible_fieldsText {fields : List (Bytes × Shown)} (clean : ∀ field ∈ fields, Clean field.1)
    (plain : ∀ field ∈ fields, field.2.Plain) : Visible (fieldsText fields []) := by
  induction fields with
  | nil => simp [Visible, fieldsText]
  | cons field fields ih =>
      rw [List.forall_mem_cons] at clean plain
      cases fields with
      | nil => exact visible_fieldText clean.1 plain.1 (by simp [Visible])
      | cons field' fields =>
          refine visible_fieldText clean.1 plain.1 ?_
          exact List.forall_mem_cons.mpr ⟨by decide, ih clean.2 plain.2⟩

theorem IsObject.of_prefix {fields : List (Bytes × Shown)} {text t : Bytes}
    {members : List (Bytes × JsonValue)} (names : Names fields) (kept : Kept fields members)
    (isPrefix : text <+: 123 :: fieldsText fields t) (object : IsObject text members) :
    (∀ field ∈ fields, field.2.Plain ∧ Utf8 field.2.contents) ∧
      ∃ rest, rest <+: t ∧ text = 123 :: fieldsText fields rest := by
  obtain ⟨rest, reads, -⟩ := object.reads
  have reads' := skip_reads (by decide) isPrefix reads
  obtain ⟨s, rfl, opens⟩ := cons_of_prefix reads'.nonempty isPrefix
  rcases reads'.members with closes | reads
  · obtain ⟨more, first⟩ := fieldsText_first names.nonempty t
    obtain ⟨isClose, -⟩ := skip_of_prefix (by decide) (first ▸ opens) closes
    exact absurd isClose (by decide)
  · obtain ⟨plain, after, rfl⟩ :=
      reads.of_prefix names.nonempty names.clean names.distinct kept opens
    have utf8 := object.utf8
    rw [utf8_cons (by decide), utf8_fieldsText names.nonempty] at utf8
    exact ⟨fun field member => ⟨plain field member, (utf8.1 field member).2⟩, rest, after, rfl⟩

theorem isObject_fields {fields : List (Bytes × Shown)} {rest : Bytes} (names : Names fields)
    (plain : ∀ field ∈ fields, field.2.Plain ∧ Utf8 field.2.contents) (blank : skip rest = [])
    (utf8 : Utf8 rest) : IsObject (123 :: fieldsText fields rest)
      (fields.map fun field => (field.1, field.2.value)) where
  utf8 := by
    rw [utf8_cons (by decide), utf8_fieldsText names.nonempty]
    exact ⟨fun field member => ⟨names.utf8 field member, (plain field member).2⟩, utf8⟩
  reads := by
    have members := readsMembers_fields names.nonempty names.clean
      (fun field member => (plain field member).1) rest
    exact ⟨rest, .object members, blank⟩
  distinct := by
    rw [List.map_map]
    exact names.distinct

end ProxyServer.Lib.Json
