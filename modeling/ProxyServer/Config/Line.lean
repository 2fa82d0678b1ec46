import ProxyServer.Config.Model
import ProxyServer.Lib.Block

namespace ProxyServer.Config
open Lib.Block

def skipSpaces : Bytes → Nat → Checked Nat
  | [], _ => .error .outOfBounds
  | c :: bytes, i => if isspace c then skipSpaces bytes (i + 1) else .ok i

/-- The loop over trailing blanks, by `end + 1`: for an empty string `end` comes before `str`. -/
def skipTrailing (block : Bytes) (str : Nat) : Nat → Checked Nat
  | 0 => .ok 0
  | last + 1 =>
      if str < last then do
        let c ← byteAt block last
        if isspace c then skipTrailing block str last else return last + 1
      else
        .ok (last + 1)

def trimWhitespaceIn (block : Bytes) : Checked Bytes := do
  let str ← skipSpaces block 0
  let length := (← stringAt block str).length
  storeAt block (← skipTrailing block str (str + length)) 0

def parseConfigLineIn (line key : Bytes) (keySize : Nat) (value : Bytes) (valueSize : Nat) :
    Checked (Int × Bytes × Bytes) := do
  match ← strchr line 0 61 with
  | none => return (-1, key, value)
  | some sep =>
      let keyLen := sep
      if keySize ≤ keyLen then
        return (-1, key, value)
      let key ← writeAt key 0 (← copyAt line 0 keyLen)
      let key ← storeAt key keyLen 0
      let key ← trimWhitespaceIn key
      let valStart ← skipSpaces (line.drop (sep + 1)) (sep + 1)
      let valLen := (← stringAt line valStart).length
      if valueSize ≤ valLen then
        return (-1, key, value)
      let value ← writeAt value 0 (← copyAt line valStart valLen)
      let value ← storeAt value valLen 0
      let value ← trimWhitespaceIn value
      return (0, key, value)

variable {block s : Bytes}

theorem skipSpaces_string (s after : Bytes) (i : Nat) :
    skipSpaces (s ++ 0 :: after) i = .ok (i + (s.takeWhile isspace).length) := by
  induction s generalizing i with
  | nil => rfl
  | cons c s ih =>
      rw [List.cons_append, skipSpaces, List.takeWhile_cons]
      split
      · rw [ih, List.length_cons, Nat.add_assoc, Nat.add_comm 1]
      · rfl

theorem skipTrailing_eq (front after : Bytes) {text : Bytes}
    (solid : ∀ c ∈ text.head?, isspace c = false) :
    skipTrailing (front ++ (text ++ after)) front.length (front.length + text.length) =
      .ok (front.length + (text.rdropWhile isspace).length) := by
  induction text using List.reverseRecOn generalizing after with
  | nil =>
      cases front with
      | nil => rfl
      | cons c front =>
          rw [List.length_cons, List.length_nil, Nat.add_zero, skipTrailing,
            if_neg (Nat.not_succ_lt_self)]
          rfl
  | append_singleton text c ih =>
      rw [List.length_append, List.length_singleton, ← Nat.add_assoc, skipTrailing]
      cases text with
      | nil =>
          have visible : ¬ isspace c = true := by simpa using solid c rfl
          rw [if_neg (by simp), List.rdropWhile_concat_neg _ _ _ visible]
          rfl
      | cons d text =>
          have here : byteAt (front ++ (d :: text ++ [c] ++ after))
              (front.length + (d :: text).length) = .ok c := by
            simp [byteAt]
          rw [if_pos (by simp), here, ok_bind]
          by_cases blank : isspace c = true
          · rw [if_pos blank, List.rdropWhile_concat_pos _ _ _ blank, List.append_assoc]
            exact ih (c :: after) (by simpa using solid)
          · rw [if_neg blank, List.rdropWhile_concat_neg _ _ _ blank, List.length_append]
            rfl

theorem storeAt_take {n : Nat} (points : Points block 0 s) (inside : n ≤ s.length) :
    ∃ cut, storeAt block n 0 = .ok cut ∧ cut.length = block.length ∧ Points cut 0 (s.take n) := by
  have string := points.notMem
  obtain ⟨before, after, rfl, empty, -⟩ := points
  obtain rfl := List.eq_nil_of_length_eq_zero empty
  have room : n < ([] ++ s ++ 0 :: after).length := by
    simp
    omega
  refine ⟨_, if_pos room, List.length_set, [], ([] ++ s ++ 0 :: after).drop (n + 1), ?_, rfl,
    fun zero => string (List.mem_of_mem_take zero)⟩
  rw [List.set_eq_take_append_cons_drop, if_pos room, List.nil_append,
    List.take_append_of_le_length inside, List.nil_append]

theorem visible_dropWhile (s : Bytes) : ∀ c ∈ (s.dropWhile isspace).head?, isspace c = false := by
  intro c first
  have stops := List.head?_dropWhile_not isspace s
  rwa [Option.mem_def.mp first] at stops

theorem trimWhitespace_prefix (s : Bytes) : trimWhitespace s <+: s := by
  have split := List.takeWhile_append_dropWhile (p := isspace) (l := s)
  have trimmed := List.rdropWhile_prefix isspace (l := s.dropWhile isspace)
  have whole := (List.prefix_append_right_inj (s.takeWhile isspace)).mpr trimmed
  rwa [split] at whole

theorem trimWhitespaceIn_ok (points : Points block 0 s) :
    ∃ block', trimWhitespaceIn block = .ok block' ∧ block'.length = block.length ∧
      Points block' 0 (trimWhitespace s) := by
  have split := List.takeWhile_append_dropWhile (p := isspace) (l := s)
  have rest : Points block (0 + (s.takeWhile isspace).length) (s.dropWhile isspace) :=
    Points.suffix (by rwa [split])
  rw [Nat.zero_add] at rest
  have isBlock : ∃ after, block = s ++ 0 :: after := by
    simpa using points.drop_eq
  obtain ⟨after, isBlock⟩ := isBlock
  have start : skipSpaces block 0 = .ok (s.takeWhile isspace).length := by
    rw [isBlock, skipSpaces_string, Nat.zero_add]
  have stop := skipTrailing_eq (s.takeWhile isspace) (0 :: after) (visible_dropWhile s)
  rw [← List.append_assoc, split, ← isBlock] at stop
  have isPrefix := trimWhitespace_prefix s
  have length : (trimWhitespace s).length =
      (s.takeWhile isspace).length + ((s.dropWhile isspace).rdropWhile isspace).length :=
    List.length_append
  rw [← length] at stop
  rw [trimWhitespaceIn, start, ok_bind, rest.stringAt, ok_bind]
  simp only [stop, ok_bind]
  have cut := storeAt_take points isPrefix.length_le
  rwa [← List.prefix_iff_eq_take.mp isPrefix] at cut

theorem copied_ok {buffer text : Bytes} (string : 0 ∉ text) (room : text.length < buffer.length) :
    ∃ copied ended trimmed, writeAt buffer 0 text = .ok copied ∧
      storeAt copied text.length 0 = .ok ended ∧ trimWhitespaceIn ended = .ok trimmed ∧
      trimmed.length = buffer.length ∧ Points trimmed 0 (trimWhitespace text) := by
  obtain ⟨front, c, rest, rfl, same⟩ : ∃ front c rest, buffer = front ++ c :: rest ∧
      front.length = text.length := by
    refine ⟨buffer.take text.length, buffer[text.length], buffer.drop (text.length + 1), ?_, ?_⟩
    · rw [List.getElem_cons_drop, List.take_append_drop]
    · rw [List.length_take, min_eq_left room.le]
  have copied : writeAt (front ++ c :: rest) 0 text = .ok (text ++ c :: rest) := by
    rw [writeAt_ok (by simp; omega), List.take_zero, List.nil_append, Nat.zero_add, ← same,
      List.drop_left]
  have ended : storeAt (text ++ c :: rest) text.length 0 = .ok (text ++ 0 :: rest) := by
    rw [storeAt, if_pos (by simp), List.set_append_right _ _ le_rfl, Nat.sub_self]
    rfl
  have points : Points (text ++ 0 :: rest) 0 text := ⟨[], rest, rfl, rfl, string⟩
  obtain ⟨trimmed, isTrimmed, length, pointsTrimmed⟩ := trimWhitespaceIn_ok points
  refine ⟨_, _, trimmed, copied, ended, isTrimmed, ?_, pointsTrimmed⟩
  rw [length, List.length_append, List.length_append, same]
  rfl

section Line

variable {line l key value : Bytes} {keySize valueSize : Nat}

theorem parseConfigLineIn_ok (points : Points line 0 l) (keyRoom : keySize ≤ key.length)
    (valueRoom : valueSize ≤ value.length) :
    ∃ ret key' value', parseConfigLineIn line key keySize value valueSize =
        .ok (ret, key', value') ∧ key'.length = key.length ∧ value'.length = value.length ∧
      match parseConfigLine l keySize valueSize with
      | none => ret = -1
      | some pair => ret = 0 ∧ Points key' 0 pair.1 ∧ Points value' 0 pair.2 := by
  by_cases separated : 61 ∈ l
  · obtain ⟨name, rest, rfl, absent⟩ := List.eq_append_cons_of_mem separated
    have string := points.notMem
    have strings : 0 ∉ name ∧ 0 ∉ rest := by simp_all
    rw [parseConfigLine, if_pos separated]
    simp only [(cut_at absent rest).1, (cut_at absent rest).2, List.tail_cons]
    rw [parseConfigLineIn, points.strchr_found absent, ok_bind, Nat.zero_add]
    by_cases longKey : name.length ≥ keySize
    · simp only [if_pos longKey]
      exact ⟨-1, key, value, rfl, rfl, rfl, rfl⟩
    simp only [if_neg longKey]
    obtain ⟨copied, ended, key', isCopied, isEnded, isKey, keyLength, pointsKey⟩ :=
      copied_ok strings.1 (show name.length < key.length by omega)
    have readKey : copyAt line 0 name.length = .ok name := by
      rw [points.copyAt (by simp), List.take_left]
    have afterSign : Points line (name.length + 1) rest := by
      have suffix := Points.suffix (s := rest) (t := name ++ [61]) (by simpa using points)
      simpa using suffix
    obtain ⟨after, dropped⟩ := afterSign.drop_eq
    have start : skipSpaces (line.drop (name.length + 1)) (name.length + 1) =
        .ok (name.length + 1 + (rest.takeWhile isspace).length) := by
      rw [dropped, skipSpaces_string]
    have split := List.takeWhile_append_dropWhile (p := isspace) (l := rest)
    have pointsValue := Points.suffix (t := rest.takeWhile isspace) (by rwa [split])
    simp only [readKey, isCopied, isEnded, isKey, start, pointsValue.stringAt, ok_bind]
    by_cases longValue : (rest.dropWhile isspace).length ≥ valueSize
    · simp only [if_pos longValue]
      exact ⟨-1, key', value, rfl, keyLength, rfl, rfl⟩
    simp only [if_neg longValue]
    obtain ⟨copied, ended, value', isCopied, isEnded, isValue, valueLength, pointsValue'⟩ :=
      copied_ok pointsValue.notMem (show (rest.dropWhile isspace).length < value.length by omega)
    simp only [pointsValue.copyAt le_rfl, List.take_length, isCopied, isEnded, isValue, ok_bind]
    exact ⟨0, key', value', rfl, keyLength, valueLength, rfl, pointsKey, pointsValue'⟩
  · rw [parseConfigLine, if_neg separated, parseConfigLineIn, points.strchr_absent separated]
    exact ⟨-1, key, value, rfl, rfl, rfl, rfl⟩

def Trimmed (text : Bytes) : Prop :=
  (∀ c ∈ text.head?, isspace c = false) ∧ ∀ c ∈ text.getLast?, isspace c = false

theorem trimWhitespace_padded {text blanks : Bytes} (trimmed : Trimmed text) (given : text ≠ [])
    (blank : ∀ c ∈ blanks, isspace c = true) : trimWhitespace (text ++ blanks) = text := by
  obtain ⟨c, rest, isText⟩ := List.exists_cons_of_ne_nil given
  have visible : ¬ isspace c = true := by simpa using trimmed.1 c (by rw [isText]; rfl)
  have first : (text ++ blanks).takeWhile isspace = [] ∧
      (text ++ blanks).dropWhile isspace = text ++ blanks := by
    rw [isText, List.cons_append]
    exact ⟨List.takeWhile_cons_of_neg visible, List.dropWhile_cons_of_neg visible⟩
  rw [trimWhitespace, first.1, first.2, List.nil_append]
  induction blanks using List.reverseRecOn with
  | nil =>
      rw [List.append_nil, List.rdropWhile_eq_self_iff]
      intro given
      simpa using trimmed.2 _ (List.getLast?_eq_some_getLast given)
  | append_singleton blanks b ih =>
      obtain ⟨blank', last⟩ := List.forall_mem_append.mp blank
      rw [← List.append_assoc, List.rdropWhile_concat_pos _ _ _ (last b (by simp))]
      refine ih blank' ?_
      rw [isText, List.cons_append]
      exact ⟨List.takeWhile_cons_of_neg visible, List.dropWhile_cons_of_neg visible⟩

structure PaddedLine (key value afterKey beforeValue afterValue : Bytes) : Prop where
  keyTrimmed : Trimmed key
  valueTrimmed : Trimmed value
  nonempty : key ≠ []
  noSign : 61 ∉ key
  strings : 0 ∉ key ∧ 0 ∉ value
  blanks : ∀ c ∈ afterKey ++ beforeValue ++ afterValue, isspace c = true
  keyShort : (key ++ afterKey).length < 256
  valueShort : (value ++ afterValue ++ [10]).length < 512

variable {afterKey beforeValue afterValue : Bytes}

theorem PaddedLine.parsed (padded : PaddedLine key value afterKey beforeValue afterValue) :
    parseConfigLine (key ++ afterKey ++ 61 :: (beforeValue ++ (value ++ (afterValue ++ [10]))))
      256 512 = some (key, value) := by
  obtain ⟨keyTrimmed, valueTrimmed, nonempty, noSign, -, blanks, keyShort, valueShort⟩ := padded
  simp only [List.forall_mem_append] at blanks
  obtain ⟨⟨blankKey, blankBefore⟩, blankAfter⟩ := blanks
  have absent : 61 ∉ key ++ afterKey := by
    rw [List.mem_append, not_or]
    exact ⟨noSign, fun inside => absurd (blankKey 61 inside) (by decide)⟩
  have cut := cut_at absent (beforeValue ++ (value ++ (afterValue ++ [10])))
  have blankEnd : ∀ c ∈ afterValue ++ [10], isspace c = true :=
    List.forall_mem_append.mpr ⟨blankAfter, by decide⟩
  have keyRead := trimWhitespace_padded keyTrimmed nonempty blankKey
  rw [parseConfigLine, if_pos (by simp)]
  simp only [cut.1, cut.2, List.tail_cons, List.dropWhile_append_of_pos blankBefore]
  rw [if_neg (Nat.not_le.mpr keyShort), keyRead]
  by_cases given : value = []
  · have none : (value ++ (afterValue ++ [10])).dropWhile isspace = [] := by
      rw [given]
      exact List.dropWhile_eq_nil_iff.mpr blankEnd
    rw [none, if_neg (by decide), given]
    rfl
  · obtain ⟨c, rest, isValue⟩ := List.exists_cons_of_ne_nil given
    have visible : ¬ isspace c = true := by simpa using valueTrimmed.1 c (by rw [isValue]; rfl)
    have all : (value ++ (afterValue ++ [10])).dropWhile isspace =
        value ++ (afterValue ++ [10]) := by
      rw [isValue, List.cons_append]
      exact List.dropWhile_cons_of_neg visible
    rw [List.append_assoc] at valueShort
    rw [all, if_neg (Nat.not_le.mpr valueShort), trimWhitespace_padded valueTrimmed given blankEnd]

/-- A padded line gives its key and its value. -/
theorem parseConfigLine_padded (padded : PaddedLine key value afterKey beforeValue afterValue)
    (rest keyBuffer valueBuffer : Bytes) (keySize : keyBuffer.length = 256)
    (valueSize : valueBuffer.length = 512) :
    ∃ keyBuffer' valueBuffer', parseConfigLineIn
        (key ++ afterKey ++ [61] ++ beforeValue ++ value ++ afterValue ++ [10] ++ 0 :: rest)
        keyBuffer 256 valueBuffer 512 = .ok (0, keyBuffer', valueBuffer') ∧
      keyBuffer'.length = 256 ∧ valueBuffer'.length = 512 ∧
      Points keyBuffer' 0 key ∧ Points valueBuffer' 0 value := by
  have parsed := padded.parsed
  have string : 0 ∉ key ++ afterKey ++ 61 :: (beforeValue ++ (value ++ (afterValue ++ [10]))) := by
    have blank : 0 ∉ afterKey ++ beforeValue ++ afterValue := fun inside =>
      absurd (padded.blanks 0 inside) (by decide)
    simp only [List.mem_append, List.mem_cons, not_or, List.not_mem_nil] at blank ⊢
    simp [padded.strings, blank]
  have points : Points
      (key ++ afterKey ++ [61] ++ beforeValue ++ value ++ afterValue ++ [10] ++ 0 :: rest) 0
      (key ++ afterKey ++ 61 :: (beforeValue ++ (value ++ (afterValue ++ [10])))) :=
    ⟨[], rest, by simp, rfl, string⟩
  have read := parseConfigLineIn_ok points keySize.ge valueSize.ge
  rw [parsed] at read
  obtain ⟨ret, keyBuffer', valueBuffer', done, keySize', valueSize', rfl, pointsKey, pointsValue⟩ :=
    read
  exact ⟨keyBuffer', valueBuffer', done, keySize'.trans keySize, valueSize'.trans valueSize,
    pointsKey, pointsValue⟩

theorem trimmed_of_all {text : Bytes} (first : text.head?.all (!isspace ·) = true)
    (last : text.getLast?.all (!isspace ·) = true) : Trimmed text := by
  simp only [Option.all_eq_true, Bool.not_eq_true'] at first last
  exact ⟨first, last⟩

theorem parseConfigLine_padded_port :
    ∃ keyBuffer' valueBuffer', parseConfigLineIn
        (ascii "port" ++ ascii " " ++ [61] ++ ascii "  " ++ ascii "80 = 80" ++ ascii "\t" ++ [10] ++
          0 :: []) (List.replicate 256 7) 256 (List.replicate 512 7) 512 =
        .ok (0, keyBuffer', valueBuffer') ∧
      keyBuffer'.length = 256 ∧ valueBuffer'.length = 512 ∧
      Points keyBuffer' 0 (ascii "port") ∧ Points valueBuffer' 0 (ascii "80 = 80") := by
  have padded : PaddedLine (ascii "port") (ascii "80 = 80") (ascii " ") (ascii "  ")
      (ascii "\t") :=
    ⟨trimmed_of_all (by decide) (by decide), trimmed_of_all (by decide) (by decide), by decide,
      by decide, by decide, by decide, by decide, by decide⟩
  exact parseConfigLine_padded padded [] _ _ List.length_replicate List.length_replicate

end Line

end ProxyServer.Config
