import ProxyServer.Auth.Lists
import ProxyServer.Filter.Cidr
import ProxyServer.Filter.Reload

namespace ProxyServer
open Config Filter

structure ListFormat where
  size : Nat
  limit : Option Nat
  accepts : Bytes → Bool
  width : Nat

namespace ListFormat

variable (format : ListFormat)

def entry (piece : Bytes) : Option Bytes := (entryOf piece).filter format.accepts

def rule (line : Bytes) : Option Bytes := (ruleText line).filter format.accepts

def read (content : Bytes) : List Bytes :=
  ((fgetsAll format.size [] content).filterMap format.entry).map (List.take format.width)

def room (count : Nat) (entries : List Bytes) : List Bytes :=
  format.limit.elim entries fun limit => entries.take (limit - count)

def full (count : Nat) : Bool := format.limit.any (· ≤ count)

def loaded (content : Bytes) : List Bytes := format.room 0 (format.read content)

def contributions : Nat → List Bytes → List (List Bytes)
  | _, [] => []
  | count, line :: lines =>
      let entries := format.room count (format.read line)
      entries :: contributions (count + entries.length) lines

theorem room_append (count : Nat) (xs ys : List Bytes) :
    format.room count (xs ++ ys) =
      format.room count xs ++ format.room (count + (format.room count xs).length) ys := by
  unfold room
  cases format.limit with
  | none => rfl
  | some limit =>
      have left : limit - (count + min (limit - count) xs.length) = limit - count - xs.length := by
        omega
      simp only [Option.elim_some]
      rw [List.take_append, List.length_take, left]

theorem room_full {count : Nat} (full : format.full count = true) (entries : List Bytes) :
    format.room count entries = [] := by
  unfold ListFormat.full at full
  unfold room
  cases limit : format.limit with
  | none => simp [limit] at full
  | some most =>
      rw [limit, Option.any_some, decide_eq_true_eq] at full
      rw [Option.elim_some, Nat.sub_eq_zero_of_le full, List.take_zero]

theorem room_open {count : Nat} (opened : format.full count = false) (entries : List Bytes) :
    ∃ k, 0 < k ∧ format.room count entries = entries.take k := by
  unfold full at opened
  unfold room
  cases limit : format.limit with
  | none => exact ⟨entries.length + 1, Nat.succ_pos _, by simp⟩
  | some most =>
      rw [limit, Option.any_some, decide_eq_false_iff_not, not_le] at opened
      exact ⟨most - count, Nat.sub_pos_of_lt opened, rfl⟩

theorem contributions_flatten (count : Nat) (lines : List Bytes) :
    (format.contributions count lines).flatten =
      format.room count (lines.flatMap format.read) := by
  induction lines generalizing count with
  | nil => cases limit : format.limit <;> simp [contributions, room, limit]
  | cons line lines ih =>
      rw [contributions, List.flatten_cons, ih, List.flatMap_cons, room_append]

theorem loaded_eq (content : Bytes) :
    format.loaded content = (format.contributions 0 (fileLines content)).flatten := by
  rw [contributions_flatten, loaded, read, fgetsAll_eq, List.filterMap_flatMap, List.map_flatMap]
  rfl

/-! ## One line -/

/-- A rule has no zero byte, fits in the table and is in one piece of its line; no piece of another
line is an entry. -/
def Fits (line : Bytes) : Prop :=
  (∀ text, format.rule line = some text →
    0 ∉ text ∧ text.length ≤ format.width ∧
      OnePiece format.size (line.takeWhile isspace).length text.length) ∧
    (format.rule line = none → ∀ piece ∈ fgetsAll format.size [] line, format.entry piece = none)

variable {format}

theorem rule_eq_some {line text : Bytes} :
    format.rule line = some text ↔ ruleText line = some text ∧ format.accepts text = true := by
  rw [rule, Option.filter_eq_some_iff]

theorem entry_eq_some {piece text : Bytes} :
    format.entry piece = some text ↔ entryOf piece = some text ∧ format.accepts text = true := by
  rw [entry, Option.filter_eq_some_iff]

theorem takeWhile_padded {before text after : Bytes} (blank : Blank before) (rule : IsRule text) :
    (before ++ (text ++ after)).takeWhile isspace = before := by
  obtain ⟨c, rest, rfl, solid, -⟩ := rule.starts
  rw [List.takeWhile_append_of_pos blank, List.cons_append,
    List.takeWhile_cons_of_neg (by simp [solid]), List.append_nil]

theorem read_eq (line : Bytes) :
    format.read line = (((fgetsAll format.size [] line).filterMap entryOf).filter
      format.accepts).map (List.take format.width) := by
  rw [read, List.filter_filterMap]
  rfl

theorem read_whole (two : 2 ≤ format.size) (wide : format.size - 1 ≤ format.width)
    (content : Bytes) :
    format.read content =
      ((fgetsAll format.size [] content).filterMap entryOf).filter format.accepts := by
  have empty : ([] : Bytes).length < format.size - 1 := by
    rw [List.length_nil]
    omega
  rw [read_eq]
  apply (List.map_congr_left _).trans (List.map_id _)
  intro text member
  obtain ⟨piece, isPiece, found⟩ := List.mem_filterMap.mp (List.mem_of_mem_filter member)
  exact List.take_of_length_le ((entryOf_sublist found).length_le.trans
    ((fgetsAll_length empty content piece isPiece).trans wide))

theorem read_of_fits (two : 2 ≤ format.size) {line : Bytes} (one : OneLine line)
    (fits : format.Fits line) : format.read line = (format.rule line).toList := by
  cases isRule : format.rule line with
  | none => simpa [read] using fits.2 isRule
  | some text =>
      obtain ⟨string, stored, within⟩ := fits.1 text isRule
      obtain ⟨isText, accepted⟩ := rule_eq_some.mp isRule
      obtain ⟨rule, before, after, blank, blankAfter, rfl⟩ := ruleText_eq_some.mp isText
      rw [takeWhile_padded blank rule] at within
      rw [read_eq, entries_onePiece two rule string blank blankAfter one within]
      simp [accepted, List.take_of_length_le stored]

theorem fits_of_mem (two : 2 ≤ format.size) {line text : Bytes} (one : OneLine line)
    (isRule : format.rule line = some text) (member : text ∈ format.read line) :
    0 ∉ text ∧ text.length ≤ format.width ∧
      OnePiece format.size (line.takeWhile isspace).length text.length := by
  obtain ⟨rule, before, after, blank, blankAfter, rfl⟩ :=
    ruleText_eq_some.mp (rule_eq_some.mp isRule).1
  rw [read, List.mem_map] at member
  obtain ⟨found, member, start⟩ := member
  obtain ⟨piece, isPiece, isEntry⟩ := List.mem_filterMap.mp member
  have ofPiece := (entry_eq_some.mp isEntry).1
  obtain ⟨foundRule, string⟩ := entryOf_rule ofPiece
  have whole : solid (before ++ (text ++ after)) = solid text := by
    rw [solid_append, solid_append, solid_blank blank, solid_blank blankAfter, Nat.zero_add,
      Nat.add_zero]
  have most : solid found ≤ solid text :=
    (entryOf_solid ofPiece).trans ((fgetsAll_solid isPiece).trans_eq whole)
  have short : found.length ≤ format.width := by
    by_contra! long
    -- the last byte of what is found is not stored, so there is more of it than of the text
    have rest : 0 < solid (found.drop format.width) := by
      obtain ⟨front, d, rfl, isSolid⟩ := foundRule.ends
      rw [List.length_append, List.length_singleton] at long
      rw [List.drop_append_of_le_length (by omega)]
      exact solid_pos (by simp) isSolid
    have sum := solid_append (found.take format.width) (found.drop format.width)
    rw [List.take_append_drop, start] at sum
    omega
  rw [List.take_of_length_le short] at start
  subst start
  refine ⟨string, short, ?_⟩
  rw [takeWhile_padded blank rule]
  by_contra cut
  exact absurd (entryOf_solid ofPiece)
    (not_le.mpr (solid_cut two rule blank blankAfter one cut piece isPiece))

theorem room_read_iff (two : 2 ≤ format.size) {line : Bytes} (one : OneLine line) (count : Nat) :
    format.room count (format.read line) = (format.rule line).toList ↔
      if format.full count then format.rule line = none else format.Fits line := by
  by_cases full : format.full count = true
  · rw [if_pos full, format.room_full full, eq_comm, Option.toList_eq_nil_iff]
  · obtain ⟨k, positive, some⟩ :=
      format.room_open (Bool.eq_false_iff.mpr full) (format.read line)
    rw [if_neg full, some]
    constructor
    · intro same
      constructor
      · intro text isRule
        refine fits_of_mem two one isRule (List.mem_of_mem_take (i := k) ?_)
        rw [same, isRule]
        exact List.mem_singleton_self text
      · intro noRule
        rw [noRule, Option.toList_none, List.take_eq_nil_iff] at same
        have nothing := same.resolve_left (Nat.ne_of_gt positive)
        simpa [read] using nothing
    · intro fits
      rw [read_of_fits two one fits]
      apply List.take_of_length_le
      cases format.rule line
      · exact Nat.zero_le k
      · exact positive

/-! ## A whole file -/

theorem contributions_iff (two : 2 ≤ format.size) {lines : List Bytes}
    (one : ∀ line ∈ lines, OneLine line) (count : Nat) :
    (format.contributions count lines = lines.map fun line => (format.rule line).toList) ↔
      ∀ before line after, lines = before ++ line :: after →
        if format.full (count + (before.filterMap format.rule).length) then format.rule line = none
        else format.Fits line := by
  induction lines generalizing count with
  | nil => simp [contributions]
  | cons first lines ih =>
      rw [List.forall_mem_cons] at one
      have here := room_read_iff two one.1 count
      have counted (before : List Bytes) :
          count + ((first :: before).filterMap format.rule).length =
            count + (format.rule first).toList.length + (before.filterMap format.rule).length := by
        cases isRule : format.rule first <;> simp [isRule, Nat.add_assoc, Nat.add_comm]
      rw [contributions, List.map_cons, List.cons.injEq]
      constructor
      · rintro ⟨head, tail⟩ before line after split
        rw [head, ih one.2] at tail
        cases before with
        | nil =>
            obtain ⟨rfl, rfl⟩ := List.cons.inj split
            exact here.mp head
        | cons other before =>
            obtain ⟨rfl, rfl⟩ := List.cons.inj split
            rw [counted]
            exact tail before line after rfl
      · intro all
        have head := here.mpr (all [] first lines rfl)
        refine ⟨head, ?_⟩
        rw [head, ih one.2]
        intro before line after split
        rw [← counted]
        exact all (first :: before) line after (by rw [split]; rfl)

variable (format)

structure InForce (content : Bytes) : Prop where
  entries : ∀ text, text ∈ format.loaded content ↔
    ∃ line ∈ fileLines content, format.rule line = some text
  lines : format.contributions 0 (fileLines content) =
    (fileLines content).map fun line => (format.rule line).toList

variable {format}

theorem inForce_iff_lines {content : Bytes} :
    format.InForce content ↔ format.contributions 0 (fileLines content) =
      (fileLines content).map fun line => (format.rule line).toList := by
  constructor
  · exact InForce.lines
  · intro own
    refine ⟨fun text => ?_, own⟩
    rw [loaded_eq, own]
    simp

theorem inForce_iff (two : 2 ≤ format.size) (content : Bytes) :
    format.InForce content ↔
      ∀ before line after, fileLines content = before ++ line :: after →
        if format.full (before.filterMap format.rule).length then format.rule line = none
        else format.Fits line := by
  rw [inForce_iff_lines, contributions_iff two (oneLine_fileLines content)]
  simp only [Nat.zero_add]

end ListFormat

/-! ## The loaders -/

inductive ListFile where
  | domainList
  | ipList
  | urlList
  | contentTypeList
  | authIpList
  | authUsers

def blankBlock : CidrBlock := ⟨0, 0, false, fun _ => 0, fun _ => 0⟩

namespace ListFile

variable {ρ : Type*} (lib : Library ρ)

def format : ListFile → ListFormat
  | domainList => ⟨512, none, fun _ => true, 511⟩
  | ipList => ⟨256, some MAX_IP_BLOCKS, fun text => (parseCidr lib text blankBlock).isSome, 255⟩
  | urlList => ⟨1024, some MAX_URL_PATTERNS, fun text => (lib.regcomp text).isSome, 1023⟩
  | contentTypeList => ⟨128, some MAX_CONTENT_TYPES, fun _ => true, 127⟩
  | authIpList => ⟨256, some maxIps, fun _ => true, maxIpLen - 1⟩
  | authUsers => ⟨256, some maxUsers, fun _ => true, maxCredsLen - 1⟩

def Loads (content : Bytes) (texts : List Bytes) : ListFile → Prop
  | domainList => ∀ root, loadDomainList root (some content) = texts.foldl trieInsert root
  | ipList => ∀ list : IpList, list.count = 0 →
      (loadIpList lib list (some content)).toList.map (fun block => some block.covers) =
        texts.map fun text => (parseCidr lib text blankBlock).map CidrBlock.covers
  | urlList => (loadUrlList lib [] (some content)).map some = texts.map lib.regcomp
  | contentTypeList => ∀ list, loadContentTypeList list (some content) = texts
  | authIpList => loadList (some content) = texts
  | authUsers => (loadUsers (some content)).map AuthUser.line = texts

theorem two_le_size (file : ListFile) : 2 ≤ (file.format lib).size := by
  cases file <;> exact Nat.le_add_left 2 _

theorem loads_domainList (content : Bytes) :
    domainList.Loads lib content ((domainList.format lib).loaded content) := by
  intro root
  have entries := ListFormat.read_whole (domainList.two_le_size lib) le_rfl content
  rw [ListFormat.loaded, entries]
  simp [format, ListFormat.room, loadDomainList]

theorem map_some_filterMap {α β : Type*} (f : α → Option β) (xs : List α) :
    (xs.filterMap f).map some = (xs.filter fun x => (f x).isSome).map f := by
  induction xs with
  | nil => rfl
  | cons x xs ih => cases found : f x <;> simp [found, ih]

theorem loads_urlList (content : Bytes) :
    urlList.Loads lib content ((urlList.format lib).loaded content) := by
  have entries := ListFormat.read_whole (urlList.two_le_size lib) le_rfl content
  rw [Loads, ListFormat.loaded, entries]
  simp only [format, ListFormat.room, loadUrlList, Option.elim_some, List.nil_append,
    Nat.sub_zero, List.map_take, map_some_filterMap]

theorem loads_contentTypeList (content : Bytes) :
    contentTypeList.Loads lib content ((contentTypeList.format lib).loaded content) := by
  intro list
  rw [ListFormat.loaded, ListFormat.read_eq]
  simp [format, ListFormat.room, loadContentTypeList]

theorem loads_authIpList (content : Bytes) :
    authIpList.Loads lib content ((authIpList.format lib).loaded content) := by
  rw [Loads, ListFormat.loaded, ListFormat.read_eq]
  simp [format, ListFormat.room, loadList]

theorem line_authUserOf (piece : Bytes) :
    (authUserOf piece).map AuthUser.line = (entryOf piece).map (List.take (maxCredsLen - 1)) := by
  rw [authUserOf, Option.map_pmap, Option.pmap_eq_map]

theorem loads_authUsers (content : Bytes) :
    authUsers.Loads lib content ((authUsers.format lib).loaded content) := by
  rw [Loads, ListFormat.loaded, ListFormat.read_eq]
  simp [format, ListFormat.room, loadUsers, List.map_take, List.map_filterMap, line_authUserOf]

theorem toList_update (list : IpList) (block : CidrBlock) :
    (IpList.mk (Function.update list.blocks list.count block) (list.count + 1)).toList =
      list.toList ++ [block] := by
  have earlier : (List.range list.count).map (Function.update list.blocks list.count block) =
      (List.range list.count).map list.blocks :=
    List.map_congr_left fun i below =>
      Function.update_of_ne (List.mem_range.mp below).ne _ _
  rw [IpList.toList, List.range_succ, List.map_append, earlier]
  simp [IpList.toList]

theorem loadIps_covers (maxSize : Nat) (list : IpList) (lines : List Bytes) :
    (loadIps lib maxSize list lines).toList.map (fun block => some block.covers) =
      list.toList.map (fun block => some block.covers) ++
        (((lines.filterMap entryOf).filter fun text => (parseCidr lib text blankBlock).isSome).take
          (maxSize - list.count)).map
            fun text => (parseCidr lib text blankBlock).map CidrBlock.covers := by
  induction lines generalizing list with
  | nil => simp [loadIps]
  | cons line lines ih =>
      rw [loadIps]
      split
      · rename_i space
        cases found : entryOf line with
        | none => simpa [found] using ih list
        | some text =>
            have same := covers_parseCidr lib text (list.blocks list.count) blankBlock
            rw [Option.bind_some]
            cases parsed : parseCidr lib text (list.blocks list.count) with
            | none =>
                rw [parsed, Option.map_none, eq_comm, Option.map_eq_none_iff] at same
                simpa [found, same] using ih list
            | some block =>
                rw [parsed, Option.map_some, eq_comm] at same
                obtain ⟨other, isOther, alike⟩ := Option.map_eq_some_iff.mp same
                obtain ⟨k, left⟩ := Nat.exists_eq_add_of_lt space
                have later : maxSize - (list.count + 1) = k := by omega
                have more : maxSize - list.count = k + 1 := by omega
                have rest := ih ⟨Function.update list.blocks list.count block, list.count + 1⟩
                rw [toList_update, later] at rest
                rw [rest, more]
                simp [found, isOther, alike]
      · rename_i full
        have none : maxSize - list.count = 0 := by omega
        rw [none]
        simp

theorem loads_ipList (content : Bytes) :
    ipList.Loads lib content ((ipList.format lib).loaded content) := by
  intro list cleared
  have entries := ListFormat.read_whole (ipList.two_le_size lib) le_rfl content
  have empty : list.toList = [] := by rw [IpList.toList, cleared]; rfl
  rw [ListFormat.loaded, entries, loadIpList, Option.elim_some, loadIps_covers, empty, cleared]
  rfl

theorem loads_format (file : ListFile) (content : Bytes) :
    file.Loads lib content ((file.format lib).loaded content) := by
  cases file with
  | domainList => exact loads_domainList lib content
  | ipList => exact loads_ipList lib content
  | urlList => exact loads_urlList lib content
  | contentTypeList => exact loads_contentTypeList lib content
  | authIpList => exact loads_authIpList lib content
  | authUsers => exact loads_authUsers lib content

theorem authInit_loaded (fopen : Bytes → Option Bytes) (cfg : ProxyConfig) :
    (authInit fopen cfg).lists.allowIps =
        (openList fopen (cfg.text .allowIpFile)).elim [] (authIpList.format lib).loaded ∧
      (authInit fopen cfg).lists.denyIps =
        (openList fopen (cfg.text .denyIpFile)).elim [] (authIpList.format lib).loaded ∧
      (cfg.flag .enableAuth = true → (authInit fopen cfg).users.map AuthUser.line =
        (openList fopen (cfg.text .authFile)).elim [] (authUsers.format lib).loaded) := by
  have list (file : Option Bytes) :
      loadList file = file.elim [] (authIpList.format lib).loaded := by
    cases file with
    | none => rfl
    | some content => exact loads_authIpList lib content
  refine ⟨list _, list _, fun enabled => ?_⟩
  rw [authInit, if_pos enabled]
  cases openList fopen (cfg.text .authFile) with
  | none => rfl
  | some content => exact loads_authUsers lib content

/-- Every rule is in force where each line fits while there is room in the table, and no rule comes
after that. -/
theorem rules_inForce_iff (file : ListFile) (content : Bytes) :
    file.Loads lib content ((file.format lib).loaded content) ∧
      ((file.format lib).InForce content ↔
        ∀ before line after, fileLines content = before ++ line :: after →
          if (file.format lib).full (before.filterMap (file.format lib).rule).length then
            (file.format lib).rule line = none
          else (file.format lib).Fits line) :=
  ⟨file.loads_format lib content, ListFormat.inForce_iff (file.two_le_size lib) content⟩

theorem comment_tail_loaded :
    let content := 35 :: List.replicate 254 120 ++ ascii "u:p\n"
    (loadUsers (some content)).map AuthUser.line = [ascii "u:p"] ∧
      (∀ line ∈ fileLines content, ruleText line = none) ∧
      ¬ (authUsers.format sampleLibrary).InForce content := by
  intro content
  have tail : (loadUsers (some content)).map AuthUser.line = [ascii "u:p"] := by decide +kernel
  have comment : ∀ line ∈ fileLines content, ruleText line = none := by decide +kernel
  refine ⟨tail, comment, ?_⟩
  intro force
  have loaded : ascii "u:p" ∈ (authUsers.format sampleLibrary).loaded content := by
    rw [← loads_authUsers sampleLibrary content, tail]
    exact List.mem_singleton_self _
  obtain ⟨line, member, isRule⟩ := (force.entries (ascii "u:p")).mp loaded
  have isText := (ListFormat.rule_eq_some.mp isRule).1
  rw [comment line member] at isText
  cases isText

end ListFile
end ProxyServer
