import ProxyServer.Filter.Pieces
import ProxyServer.Lib.Block

namespace ProxyServer.Config
open Lib Filter

structure IsComment (line : Bytes) : Prop where
  noNewline : 10 ∉ line
  marked : line.dropWhile isspace = [] ∨ (line.dropWhile isspace).head? = some 35 ∨
    (line.dropWhile isspace).head? = some 59

/-- `text` is the line as it goes between `before` and `after`, which are made of whole lines. Only
the last line of a file may be without a newline. -/
structure IsInserted (before line text after : Bytes) : Prop where
  start : before = [] ∨ before.getLast? = some 10 ∨ after = []
  ends : text = line ++ [10] ∨ text = line ∧ after = []

def ended (before : Bytes) : Bytes :=
  if before = [] ∨ before.getLast? = some 10 then before else before ++ [10]

theorem fgets_eq_fgetsAll (line content : Bytes) :
    fgets line content = fgetsAll CONFIG_MAX_LINE line content := by
  induction content generalizing line with
  | nil => rfl
  | cons c rest ih => simp only [fgets, fgetsAll, ih]

theorem fgets_append {line text : Bytes} (newline : text.getLast? = some 10) (rest : Bytes) :
    fgets line (text ++ rest) = fgets line text ++ fgets [] rest := by
  induction text generalizing line with
  | nil => simp at newline
  | cons c text ih =>
      rw [List.cons_append, fgets, fgets]
      cases text with
      | nil =>
          obtain rfl : c = 10 := by simpa using newline
          simp [fgets]
      | cons d text =>
          have later : (d :: text).getLast? = some 10 := by simpa using newline
          split
          · rw [ih later, List.cons_append]
          · exact ih later

theorem fileMentions_append {text rest : Bytes}
    (apart : text = [] ∨ text.getLast? = some 10 ∨ rest = []) :
    fileMentions (.ok (text ++ rest)) = fileMentions (.ok text) ++ fileMentions (.ok rest) := by
  rcases apart with rfl | newline | rfl
  · rfl
  · rw [fileMentions, fgets_append newline, List.filterMap_append]
    rfl
  · rw [List.append_nil]
    exact (List.append_nil _).symm

theorem lineMention_blank {c : UInt8} (blank : isspace c = true) (piece : Bytes) :
    lineMention (c :: piece) = lineMention piece := by
  have nonzero : (c != 0) = true := by
    rw [bne_iff_ne]
    rintro rfl
    exact absurd blank (by decide)
  have string : cstr (c :: piece) = c :: cstr piece := List.takeWhile_cons_of_pos nonzero
  rw [lineMention, string, List.dropWhile_cons_of_pos blank]
  rfl

theorem lineMention_marked {c : UInt8} (mark : c = 35 ∨ c = 59) (piece : Bytes) :
    lineMention (c :: piece) = none := by
  have visible : (cstr (c :: piece)).dropWhile isspace = c :: cstr piece := by
    rcases mark with rfl | rfl <;> rfl
  rw [lineMention, visible]
  exact if_pos (Or.inr (mark.imp (congrArg some) (congrArg some)))

theorem lineMention_comment {blanks rest piece : Bytes} (blank : Blank blanks)
    (marked : rest = [] ∨ rest.head? = some 35 ∨ rest.head? = some 59)
    (isPrefix : piece <+: blanks ++ rest) : lineMention piece = none := by
  induction blanks generalizing piece with
  | nil =>
      cases piece with
      | nil => rfl
      | cons c piece =>
          obtain ⟨more, rfl⟩ := isPrefix
          apply lineMention_marked
          simpa using marked
  | cons b blanks ih =>
      rw [Blank, List.forall_mem_cons] at blank
      cases piece with
      | nil => rfl
      | cons c piece =>
          obtain ⟨rfl, later⟩ := List.cons_prefix_cons.mp isPrefix
          rw [lineMention_blank blank.1]
          exact ih blank.2 later

theorem IsInserted.oneLine {before line text after : Bytes}
    (inserted : IsInserted before line text after) (noNewline : 10 ∉ line) : OneLine text := by
  intro front rest split
  rcases inserted.ends with rfl | ⟨rfl, -⟩
  · rcases List.append_eq_append_iff.mp split with ⟨gap, rfl, ends⟩ | ⟨gap, rfl, ends⟩
    · have length := congrArg List.length ends
      simp only [List.length_append, List.length_cons, List.length_nil] at length
      exact List.eq_nil_of_length_eq_zero (by omega)
    · cases gap with
      | nil => simpa using ends
      | cons c gap =>
          obtain ⟨rfl, -⟩ := List.cons.inj ends
          exact absurd (by simp) noNewline
  · exact absurd (by simp [split]) noNewline

theorem IsInserted.first {before line text after : Bytes}
    (inserted : IsInserted before line text after) (comment : IsComment line) {piece : Bytes}
    (isPrefix : piece <+: text) : lineMention piece = none := by
  have blank : Blank (line.takeWhile isspace) := fun c inside => List.mem_takeWhile_imp inside
  have split := List.takeWhile_append_dropWhile (p := isspace) (l := line)
  have within : piece <+: line ++ [10] := by
    rcases inserted.ends with rfl | ⟨rfl, -⟩
    · exact isPrefix
    · exact isPrefix.trans (List.prefix_append _ _)
  rw [← split] at within
  rcases comment.marked with none | marked
  · rw [none, List.append_nil] at within
    have blanks : Blank (line.takeWhile isspace ++ [10]) :=
      List.forall_mem_append.mpr ⟨blank, by decide⟩
    exact lineMention_comment blanks (Or.inl rfl) (by rwa [List.append_nil])
  · rw [List.append_assoc] at within
    have head : (line.dropWhile isspace ++ [10]).head? = (line.dropWhile isspace).head? := by
      cases visible : line.dropWhile isspace with
      | nil => simp [visible] at marked
      | cons c rest => rfl
    exact lineMention_comment blank (Or.inr (head ▸ marked)) within

theorem fileMentions_comment {before line text after : Bytes} (comment : IsComment line)
    (inserted : IsInserted before line text after) :
    fileMentions (.ok text) = fileMentions (.ok (text.drop 1023)) := by
  by_cases given : text = []
  · rw [given]
    rfl
  · have pieces : fgets [] text = text.take 1023 :: fgets [] (text.drop 1023) := by
      rw [fgets_eq_fgetsAll, fgets_eq_fgetsAll]
      exact fgetsAll_line (by decide) (inserted.oneLine comment.noNewline) given
    rw [fileMentions, pieces,
      List.filterMap_cons_none (inserted.first comment (List.take_prefix _ _))]
    rfl

def valueText (piece : Bytes) : Bytes :=
  ((((cstr piece).dropWhile isspace).dropWhile (· != 61)).tail).dropWhile isspace

/-- There is no room for a newline after the value. -/
def Crowded (piece : Bytes) : Prop := 0 ∉ piece ∧ (valueText piece).length = 511

instance (piece : Bytes) : Decidable (Crowded piece) := inferInstanceAs (Decidable (_ ∧ _))

def crowdedMention (before : Bytes) : Option (Setting × Bytes) :=
  if before = [] ∨ before.getLast? = some 10 then none
  else
    match (fgets [] before).getLast? with
    | none => none
    | some piece => if piece.length < 1023 ∧ Crowded piece then lineMention piece else none

theorem dropWhile_newline (text : Bytes) :
    (text ++ [10]).dropWhile isspace =
      if text.dropWhile isspace = [] then [] else text.dropWhile isspace ++ [10] := by
  rw [List.dropWhile_append]
  cases text.dropWhile isspace <;> rfl

theorem trimWhitespace_newline {c : UInt8} (visible : ¬isspace c = true) (rest : Bytes) :
    trimWhitespace (c :: rest ++ [10]) = trimWhitespace (c :: rest) := by
  have trimmed (more : Bytes) : trimWhitespace (c :: more) = (c :: more).rdropWhile isspace := by
    rw [trimWhitespace, List.takeWhile_cons_of_neg visible, List.dropWhile_cons_of_neg visible]
    rfl
  rw [List.cons_append, trimmed, trimmed, ← List.cons_append,
    List.rdropWhile_concat_pos _ _ _ (by decide)]

theorem parseConfigLine_newline (line : Bytes) :
    parseConfigLine (line ++ [10]) 256 512 =
      if (((line.dropWhile (· != 61)).tail).dropWhile isspace).length = 511 then none
      else parseConfigLine line 256 512 := by
  by_cases separated : 61 ∈ line
  · obtain ⟨key, rest, rfl, absent⟩ := List.eq_append_cons_of_mem separated
    have longer : 61 ∈ key ++ 61 :: (rest ++ [10]) := by simp
    rw [List.append_assoc, List.cons_append, parseConfigLine, parseConfigLine, if_pos separated,
      if_pos longer]
    simp only [(Block.cut_at absent _).1, (Block.cut_at absent _).2, List.tail_cons,
      dropWhile_newline]
    cases visible : rest.dropWhile isspace with
    | nil => simp
    | cons c value =>
        have solid : ¬isspace c = true := by
          have head := List.head?_dropWhile_not isspace rest
          rw [visible] at head
          simpa using head
        rw [if_neg (List.cons_ne_nil c value), trimWhitespace_newline solid, List.length_append,
          List.length_singleton]
        by_cases long : key.length ≥ 256
        · simp only [if_pos long, ite_self]
        · simp only [if_neg long]
          by_cases full : (c :: value).length = 511
          · rw [if_pos full, if_pos (by omega)]
          · rw [if_neg full]
            congr 1
            rw [eq_iff_iff]
            omega
  · have apart : 61 ∉ line ++ [10] := by
      simpa using separated
    simp [parseConfigLine, separated, apart]

theorem lineMention_newline (piece : Bytes) :
    lineMention (piece ++ [10]) = if Crowded piece then none else lineMention piece := by
  by_cases cut : 0 ∈ piece
  · obtain ⟨front, rest, split⟩ := List.append_of_mem cut
    have same : cstr (piece ++ [10]) = cstr piece := by
      rw [split, List.append_assoc, List.cons_append, cstr_append_zero, cstr_append_zero]
    rw [if_neg fun crowded => crowded.1 cut, lineMention, lineMention, same]
  · have string : 0 ∉ piece ++ [10] := by
      simpa using cut
    have crowded : Crowded piece ↔ (valueText piece).length = 511 := and_iff_right cut
    simp only [crowded, valueText, lineMention, cstr_of_string cut, cstr_of_string string,
      dropWhile_newline]
    cases piece.dropWhile isspace with
    | nil => simp
    | cons c line =>
        rw [if_neg (List.cons_ne_nil c line), parseConfigLine_newline]
        simp only [List.cons_append, List.head?_cons, reduceCtorEq, false_or]
        split
        · rw [ite_self]
        · split <;> rfl

theorem fgets_newline {line content : Bytes} (room : line.length < 1023)
    (given : line ++ content ≠ []) (bare : content.getLast? ≠ some 10) :
    ∃ pieces piece, fgets line content = pieces ++ [piece] ∧
      fgets line (content ++ [10]) =
        pieces ++ if piece.length < 1023 then [piece ++ [10]] else [piece, [10]] := by
  induction content generalizing line with
  | nil =>
      have begun : line ≠ [] := by simpa using given
      refine ⟨[], line, ?_, ?_⟩
      · rw [fgets, if_neg begun]
        rfl
      · rw [List.nil_append, fgets, if_pos (Or.inl rfl), if_pos room]
        rfl
  | cons c rest ih =>
      have grown : (line ++ [c]).length = line.length + 1 := by simp
      have later : rest ≠ [] → rest.getLast? ≠ some 10 := by
        intro more
        obtain ⟨d, rest, rfl⟩ := List.exists_cons_of_ne_nil more
        simpa using bare
      rw [List.cons_append, fgets, fgets]
      by_cases cut : c = 10 ∨ (line ++ [c]).length = CONFIG_MAX_LINE - 1
      · rw [if_pos cut, if_pos cut]
        by_cases more : rest = []
        · subst more
          have full : (line ++ [c]).length = 1023 :=
            cut.resolve_left fun newline => bare (by rw [newline]; rfl)
          refine ⟨[], line ++ [c], rfl, ?_⟩
          rw [full]
          rfl
        · obtain ⟨pieces, piece, whole, longer⟩ :=
            @ih [] (by decide) (by simpa using more) (later more)
          exact ⟨(line ++ [c]) :: pieces, piece, by rw [whole]; rfl, by rw [longer]; rfl⟩
      · rw [if_neg cut, if_neg cut]
        have shorter : (line ++ [c]).length < 1023 := by
          have limit : CONFIG_MAX_LINE - 1 = 1023 := rfl
          omega
        refine ih shorter (by simp) ?_
        by_cases more : rest = []
        · simp [more]
        · exact later more

theorem fileMentions_ended (before : Bytes) :
    fileMentions (.ok before) =
      fileMentions (.ok (ended before)) ++ (crowdedMention before).toList := by
  rw [ended, crowdedMention]
  split
  · rw [Option.toList_none, List.append_nil]
  · rename_i bare
    obtain ⟨given, bare⟩ := not_or.mp bare
    obtain ⟨pieces, piece, whole, longer⟩ :=
      @fgets_newline [] _ (by decide) given bare
    have newline : lineMention [10] = none := rfl
    rw [fileMentions, fileMentions, whole, longer, List.filterMap_append, List.filterMap_append,
      List.getLast?_concat, List.append_assoc]
    congr 1
    simp only [List.filterMap_cons, List.filterMap_nil]
    by_cases room : piece.length < 1023
    · simp only [room, true_and, if_true, List.filterMap_cons, List.filterMap_nil,
        lineMention_newline]
      by_cases crowded : Crowded piece
      · simp only [crowded, if_true]
        cases lineMention piece <;> rfl
      · simp only [crowded, if_false]
        cases lineMention piece <;> rfl
    · simp only [room, false_and, if_false, List.filterMap_cons, List.filterMap_nil, newline]
      cases lineMention piece <;> rfl

theorem config_ext {cfg cfg' : ProxyConfig}
    (same : ∀ setting : Setting, setting.get cfg = setting.get cfg') : cfg = cfg' := by
  obtain ⟨int, size, flag, text⟩ := cfg
  obtain ⟨int', size', flag', text'⟩ := cfg'
  congr 1
  · exact funext fun field => same (.int field)
  · exact funext fun field => same (.size field)
  · exact funext fun field => same (.flag field)
  · exact funext fun field => same (.text field)

def givenBy (cfg : ProxyConfig) (content : Bytes) (setting : Setting) : setting.Carrier :=
  (lastMention setting (fileMentions (.ok content))).elim (setting.get cfg) setting.read

/-- What the comment says after its first 1023 bytes is said again after it, or holds before it. A
crowded line before it says what it said without the newline. -/
structure Harmless (cfg : ProxyConfig) (before text after : Bytes) : Prop where
  said : ∀ setting value, lastMention setting (fileMentions (.ok (text.drop 1023))) = some value →
    (lastMention setting (fileMentions (.ok after))).isSome = true ∨
      setting.read value = givenBy cfg before setting
  kept : ∀ setting value, crowdedMention before = some (setting, value) →
    (lastMention setting (fileMentions (.ok (text.drop 1023)))).isSome = true ∨
      setting.read value = givenBy cfg (ended before) setting

theorem comment_ignored_iff (cfg : ProxyConfig) {before line text after : Bytes}
    (comment : IsComment line) (inserted : IsInserted before line text after) :
    configLoadFile cfg (.ok (ended before ++ (text ++ after))) =
        configLoadFile cfg (.ok (before ++ after)) ↔
      Harmless cfg before text after := by
  have textEnds : text = [] ∨ text.getLast? = some 10 ∨ after = [] := by
    rcases inserted.ends with rfl | ⟨-, rfl⟩
    · exact Or.inr (Or.inl (by simp))
    · exact Or.inr (Or.inr rfl)
  have beforeEnds (rest : Bytes) : ended before = [] ∨ (ended before).getLast? = some 10 ∨
      rest = [] := by
    rw [ended]
    split
    · rename_i whole
      exact whole.imp_right Or.inl
    · exact Or.inr (Or.inl (by simp))
  have last : crowdedMention before ≠ none → after = [] := by
    intro crowded
    rw [crowdedMention] at crowded
    split at crowded
    · exact absurd rfl crowded
    · rename_i bare
      exact (inserted.start.resolve_left (not_or.mp bare).1).resolve_left (not_or.mp bare).2
  have whole (content : Bytes) : configLoadFile cfg (.ok content) =
      (0, fields.run (fileMentions (.ok content)) cfg) :=
    Prod.ext rfl (configLoadFile_eq cfg (.ok content))
  have givenBefore (setting : Setting) : givenBy cfg before setting = setting.get
      (fields.run (crowdedMention before).toList
        (fields.run (fileMentions (.ok (ended before))) cfg)) := by
    rw [← fields.run_append, ← fileMentions_ended]
    exact (fields.get_run setting _ cfg).symm
  have givenEnded (setting : Setting) : givenBy cfg (ended before) setting =
      setting.get (fields.run (fileMentions (.ok (ended before))) cfg) :=
    (fields.get_run setting _ cfg).symm
  rw [whole, whole, fileMentions_append (beforeEnds _), fileMentions_append textEnds,
    fileMentions_comment comment inserted, fileMentions_append inserted.start,
    fileMentions_ended before, fields.run_append, fields.run_append, fields.run_append,
    fields.run_append, Prod.mk.injEq, and_iff_right rfl]
  have each (setting : Setting) :=
    (fields.get_run_followed setting (fileMentions (.ok after)) _ _).trans
      (or_congr_right (fields.get_run_replaced setting (fileMentions (.ok (text.drop 1023)))
        (crowdedMention before) (fields.run (fileMentions (.ok (ended before))) cfg)))
  constructor
  · intro same
    have agrees (setting : Setting) := (each setting).mp (congrArg setting.get same)
    constructor
    · intro setting value mentioned
      rw [givenBefore]
      exact (agrees setting).imp_right fun agrees => agrees.1 value mentioned
    · intro setting value crowded
      rw [givenEnded]
      have none : after = [] := last (by simp [crowded])
      have unsaid : ¬(lastMention setting (fileMentions (.ok after))).isSome = true := by
        rw [none]
        exact Bool.false_ne_true
      exact ((agrees setting).resolve_left unsaid).2 value crowded
  · intro harmless
    refine config_ext fun setting => (each setting).mpr ?_
    have said := harmless.said setting
    have kept := harmless.kept setting
    rw [givenBefore] at said
    rw [givenEnded] at kept
    by_cases again : (lastMention setting (fileMentions (.ok after))).isSome = true
    · exact Or.inl again
    · exact Or.inr ⟨fun value mentioned => (said value mentioned).resolve_left again, kept⟩

theorem comment_ignored_iff_short :
    configLoadFile (configInitDefaults .zeroed)
        (.ok (ended (ascii "port=1\n") ++ (ascii "# a port\n" ++ ascii "port=2\n"))) =
      configLoadFile (configInitDefaults .zeroed) (.ok (ascii "port=1\n" ++ ascii "port=2\n")) ↔
    Harmless (configInitDefaults .zeroed) (ascii "port=1\n") (ascii "# a port\n")
      (ascii "port=2\n") := by
  have comment : IsComment (ascii "# a port") := ⟨by decide, Or.inr (Or.inl (by decide))⟩
  exact comment_ignored_iff (configInitDefaults .zeroed) comment
    ⟨Or.inr (Or.inl (by decide)), Or.inl (by decide)⟩

def longComment : Bytes := (35 :: List.replicate 1022 120) ++ ascii "port=1"

theorem longComment_configures :
    IsComment longComment ∧ IsInserted [] longComment (longComment ++ [10]) [] ∧
    (configLoadFile (configInitDefaults .zeroed) (.ok (longComment ++ [10]))).2.int .port = 1 ∧
    (configLoadFile (configInitDefaults .zeroed) (.ok [])).2.int .port = 8080 := by
  have comment : IsComment longComment := by
    refine ⟨?_, Or.inr (Or.inl rfl)⟩
    rw [longComment, List.mem_append, List.mem_cons, List.mem_replicate]
    decide
  have inserted : IsInserted [] longComment (longComment ++ [10]) [] :=
    ⟨Or.inl rfl, Or.inl rfl⟩
  have rest : (longComment ++ [10]).drop 1023 = ascii "port=1\n" := by
    have length : (35 :: List.replicate 1022 (120 : UInt8)).length = 1023 := by
      rw [List.length_cons, List.length_replicate]
    rw [longComment, List.append_assoc, List.drop_left' length]
    rfl
  refine ⟨comment, inserted, ?_, rfl⟩
  rw [configLoadFile_eq, fileMentions_comment comment inserted, rest]
  decide

end ProxyServer.Config
