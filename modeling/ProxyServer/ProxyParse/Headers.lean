import ProxyServer.Lib.Assign
import ProxyServer.Lib.Block
import ProxyServer.Lib.Lines

/-!
# The parsed request and its header table

The pointers `method` and `version`, and `host` after a `CONNECT`, go into the block at `buf`. A
string that has an allocation of its own is the string itself. Allocations succeed.
-/

namespace ProxyServer.ProxyParse
open Lib Lib.Block Lib.Lines

/-- A slot of the table. A removed header leaves its slot with a null key. -/
structure ParsedHeader where
  key : Option Bytes
  value : Bytes
  deriving DecidableEq

inductive Host where
  | inBuf (offset : Nat)
  | owned (name : Bytes)
  deriving DecidableEq

/-- The `port` of a new object is the word that `malloc` left there. -/
inductive Port where
  | uninitialized (word : Nat)
  | null
  | owned (text : Bytes)
  deriving DecidableEq

/-- `headers` is the part of the table in use, so `headersused` is its length. -/
structure ParsedRequest where
  method : Option Nat
  protocol : Option Bytes
  host : Option Host
  port : Port
  path : Option Bytes
  version : Option Nat
  buf : Option Bytes
  headers : List ParsedHeader
  headerslen : Nat
  deriving DecidableEq

def DEFAULT_NHDRS : Nat := 8

def parsedRequestCreate (word : Nat) : ParsedRequest where
  method := none
  protocol := none
  host := none
  port := .uninitialized word
  path := none
  version := none
  buf := none
  headers := []
  headerslen := DEFAULT_NHDRS

/-! ## The header table -/

def parsedHeaderGet (pr : ParsedRequest) (key : Bytes) : Option Nat :=
  pr.headers.findIdx? fun slot => slot.key == some key

def parsedHeaderRemove (pr : ParsedRequest) (key : Bytes) : Int × ParsedRequest :=
  match parsedHeaderGet pr key with
  | none => (-1, pr)
  | some i =>
      (0, { pr with headers := pr.headers.modify i fun slot => { slot with key := none } })

def parsedHeaderSet (pr : ParsedRequest) (key value : Bytes) : Checked ParsedRequest :=
  let pr := (parsedHeaderRemove pr key).2
  let headerslen :=
    if pr.headerslen ≤ pr.headers.length + 1 then pr.headerslen * 2 else pr.headerslen
  if pr.headers.length < headerslen then
    .ok { pr with headerslen, headers := pr.headers ++ [⟨some key, value⟩] }
  else
    .error .outOfBounds

def HasRoom (pr : ParsedRequest) : Prop := pr.headers.length < pr.headerslen

theorem HasRoom.create (word : Nat) : HasRoom (parsedRequestCreate word) := by
  simp [HasRoom, parsedRequestCreate, DEFAULT_NHDRS]

def SameLine (pr pr' : ParsedRequest) : Prop :=
  pr' = { pr with headers := pr'.headers, headerslen := pr'.headerslen }

theorem SameLine.trans {pr pr' pr'' : ParsedRequest} (first : SameLine pr pr')
    (second : SameLine pr' pr'') : SameLine pr pr'' := by
  rw [SameLine] at *
  rw [second, first]

theorem length_parsedHeaderRemove (pr : ParsedRequest) (key : Bytes) :
    (parsedHeaderRemove pr key).2.headers.length = pr.headers.length := by
  rw [parsedHeaderRemove]
  split <;> simp

theorem sameLine_parsedHeaderRemove (pr : ParsedRequest) (key : Bytes) :
    SameLine pr (parsedHeaderRemove pr key).2 ∧
      (parsedHeaderRemove pr key).2.headerslen = pr.headerslen := by
  rw [parsedHeaderRemove]
  split <;> exact ⟨rfl, rfl⟩

theorem HasRoom.set {pr : ParsedRequest} (room : HasRoom pr) (key value : Bytes) :
    ∃ pr', parsedHeaderSet pr key value = .ok pr' ∧ HasRoom pr' ∧ SameLine pr pr' ∧
      pr'.headers = (parsedHeaderRemove pr key).2.headers ++ [⟨some key, value⟩] := by
  obtain ⟨same, capacity⟩ := sameLine_parsedHeaderRemove pr key
  have used := length_parsedHeaderRemove pr key
  rw [HasRoom, ← used, ← capacity] at room
  rw [parsedHeaderSet]
  generalize (parsedHeaderRemove pr key).2 = removed at *
  have inside : removed.headers.length <
      if removed.headerslen ≤ removed.headers.length + 1 then removed.headerslen * 2
      else removed.headerslen := by
    split <;> omega
  refine ⟨_, if_pos inside, ?_, same.trans rfl, rfl⟩
  simp only [HasRoom, List.length_append, List.length_singleton]
  split <;> omega

/-! ## The fields in the table -/

def liveFields (slots : List ParsedHeader) : List (Bytes × Bytes) :=
  slots.filterMap fun slot => slot.key.map (·, slot.value)

def ParsedRequest.fields (pr : ParsedRequest) : List (Bytes × Bytes) := liveFields pr.headers

theorem liveFields_append (slots more : List ParsedHeader) :
    liveFields (slots ++ more) = liveFields slots ++ liveFields more :=
  List.filterMap_append

theorem liveFields_some (key value : Bytes) (slots : List ParsedHeader) :
    liveFields (⟨some key, value⟩ :: slots) = (key, value) :: liveFields slots := rfl

theorem liveFields_none (value : Bytes) (slots : List ParsedHeader) :
    liveFields (⟨none, value⟩ :: slots) = liveFields slots := rfl

theorem mem_keys_liveFields {slots : List ParsedHeader} {key : Bytes} :
    key ∈ keys (liveFields slots) ↔ ∃ slot ∈ slots, slot.key = some key := by
  simp only [keys, liveFields, List.mem_map, List.mem_filterMap, Option.map_eq_some_iff]
  constructor
  · rintro ⟨-, ⟨slot, member, name, isKey, rfl⟩, rfl⟩
    exact ⟨slot, member, isKey⟩
  · rintro ⟨slot, member, isKey⟩
    exact ⟨_, ⟨slot, member, key, isKey, rfl⟩, rfl⟩

theorem parsedHeaderGet_none {pr : ParsedRequest} {key : Bytes} :
    parsedHeaderGet pr key = none ↔ key ∉ keys pr.fields := by
  rw [parsedHeaderGet, List.findIdx?_eq_none_iff, ParsedRequest.fields, mem_keys_liveFields]
  simp

theorem parsedHeaderGet_some {pr : ParsedRequest} {key : Bytes} {i : Nat}
    (found : parsedHeaderGet pr key = some i) :
    ∃ before value after, pr.headers = before ++ ⟨some key, value⟩ :: after ∧ before.length = i := by
  rw [parsedHeaderGet, List.findIdx?_eq_some_iff_getElem] at found
  obtain ⟨inside, isKey, -⟩ := found
  refine ⟨pr.headers.take i, pr.headers[i].value, pr.headers.drop (i + 1), ?_, by simp; omega⟩
  have slot : pr.headers[i] = ⟨some key, pr.headers[i].value⟩ := by
    rw [← of_decide_eq_true (by simpa using isKey : decide (pr.headers[i].key = some key) = true)]
  rw [← slot, List.getElem_cons_drop, List.take_append_drop]

structure Intact (pr : ParsedRequest) : Prop where
  room : HasRoom pr
  distinct : (keys pr.fields).Nodup

theorem Intact.create (word : Nat) : Intact (parsedRequestCreate word) where
  room := .create word
  distinct := List.nodup_nil

theorem Intact.congr {pr pr' : ParsedRequest} (intact : Intact pr)
    (headers : pr'.headers = pr.headers) (headerslen : pr'.headerslen = pr.headerslen) :
    Intact pr' where
  room := by
    rw [HasRoom, headers, headerslen]
    exact intact.room
  distinct := by
    rw [ParsedRequest.fields, headers]
    exact intact.distinct

theorem slot_none {pr : ParsedRequest} {key : Bytes} (absent : key ∉ keys pr.fields) :
    (parsedHeaderGet pr key >>= (pr.headers[·]?)) = none := by
  rw [parsedHeaderGet_none.mpr absent]
  rfl

theorem slot_some {pr : ParsedRequest} {key value : Bytes} (distinct : (keys pr.fields).Nodup)
    (member : (key, value) ∈ pr.fields) :
    (parsedHeaderGet pr key >>= (pr.headers[·]?)) = some ⟨some key, value⟩ := by
  obtain ⟨i, found⟩ : ∃ i, parsedHeaderGet pr key = some i := by
    refine Option.ne_none_iff_exists'.mp fun absent => ?_
    exact parsedHeaderGet_none.mp absent (List.mem_map_of_mem member)
  obtain ⟨before, value', after, split, rfl⟩ := parsedHeaderGet_some found
  have member' : (key, value') ∈ pr.fields := by
    rw [ParsedRequest.fields, split, liveFields_append, liveFields_some]
    exact List.mem_append_right _ List.mem_cons_self
  obtain rfl : value = value' :=
    congrArg Prod.snd (List.inj_on_of_nodup_map distinct member member' rfl)
  simp [found, split]

theorem Intact.fields_remove {pr : ParsedRequest} (intact : Intact pr) (key : Bytes) :
    (parsedHeaderRemove pr key).2.fields = without key pr.fields := by
  rw [parsedHeaderRemove]
  cases found : parsedHeaderGet pr key with
  | none => exact (without_of_notMem (parsedHeaderGet_none.mp found)).symm
  | some i =>
      obtain ⟨before, value, after, split, rfl⟩ := parsedHeaderGet_some found
      have whole : pr.fields = liveFields before ++ (key, value) :: liveFields after := by
        rw [ParsedRequest.fields, split, liveFields_append, liveFields_some]
      have distinct := intact.distinct
      rw [whole] at distinct ⊢
      rw [without_cut distinct]
      have inside : before.length < (before ++ ⟨some key, value⟩ :: after).length := by simp
      simp only [ParsedRequest.fields, split, List.modify_eq_take_cons_drop inside,
        List.take_left, liveFields_append]
      simp [liveFields_none]

theorem Intact.remove {pr : ParsedRequest} (intact : Intact pr) (key : Bytes) :
    Intact (parsedHeaderRemove pr key).2 where
  room := by
    rw [HasRoom, length_parsedHeaderRemove, (sameLine_parsedHeaderRemove pr key).2]
    exact intact.room
  distinct := by
    rw [intact.fields_remove]
    exact nodup_without intact.distinct

theorem Intact.set {pr : ParsedRequest} (intact : Intact pr) (key value : Bytes) :
    ∃ pr', parsedHeaderSet pr key value = .ok pr' ∧ Intact pr' ∧ SameLine pr pr' ∧
      pr'.fields = assign pr.fields (key, value) := by
  obtain ⟨pr', stored, room, same, headers⟩ := intact.room.set key value
  have fields : pr'.fields = assign pr.fields (key, value) := by
    rw [ParsedRequest.fields, headers, liveFields_append, liveFields_some]
    exact congrArg (· ++ [(key, value)]) (intact.fields_remove key)
  refine ⟨pr', stored, ⟨room, ?_⟩, same, fields⟩
  rw [fields]
  exact nodup_assign intact.distinct _

/-! ## Parsing the header lines -/

def parsedHeaderParse (pr : ParsedRequest) (block : Bytes) (line : Nat) :
    Checked (Int × ParsedRequest) := do
  match ← strchr block line 58 with
  | none => return (-1, pr)
  | some index1 =>
      let key ← copyAt block line (index1 - line)
      let index1 := index1 + 2
      let index2 ← deref (← strstr block index1 crlf)
      let value ← copyAt block index1 (index2 - index1)
      let pr ← parsedHeaderSet pr key value
      return (0, pr)

def ColonEnds (text : Bytes) : Prop :=
  58 ∉ cstr text ∨ crlf <:+: cstr (text.drop ((cstr text).idxOf 58 + 2))

/-- The field that is read where `text` starts: its key goes up to the first colon, wherever that
is, and its value from two bytes on to the end of the line there. -/
def fieldAt (text : Bytes) : Bytes × Bytes :=
  ((cstr text).take ((cstr text).idxOf 58), lineOf (cstr (text.drop ((cstr text).idxOf 58 + 2))))

section Line

variable {pr : ParsedRequest} {buf : Bytes} {line : Nat}

theorem parsedHeaderParse_none (inside : line ≤ buf.length) (colon : 58 ∉ cstr (buf.drop line)) :
    parsedHeaderParse pr (buf ++ [0]) line = .ok (-1, pr) := by
  simp only [parsedHeaderParse, (points_cstr buf inside).strchr_absent colon]
  rfl

theorem parsedHeaderParse_ok (intact : Intact pr) (inside : line ≤ buf.length)
    (colon : 58 ∈ cstr (buf.drop line)) (ends : ColonEnds (buf.drop line)) :
    ∃ pr', parsedHeaderParse pr (buf ++ [0]) line = .ok (0, pr') ∧ Intact pr' ∧ SameLine pr pr' ∧
      pr'.fields = assign pr.fields (fieldAt (buf.drop line)) := by
  have points := points_cstr buf inside
  have ends := ends.resolve_left (not_not.mpr colon)
  have split : (buf.drop line).drop ((cstr (buf.drop line)).idxOf 58 + 2) =
      buf.drop (line + (cstr (buf.drop line)).idxOf 58 + 2) := by
    rw [List.drop_drop, Nat.add_assoc]
  rw [split] at ends
  have short : line + (cstr (buf.drop line)).idxOf 58 + 2 ≤ buf.length := by
    by_contra! past
    rw [List.drop_eq_nil_of_le past.le] at ends
    exact absurd ends (by decide)
  have pointsValue := points_cstr buf short
  obtain ⟨rest, found⟩ := Option.ne_none_iff_exists'.mp (mt memmem_eq_none.mp (not_not.mpr ends))
  have value := pointsValue.copyAt (Nat.sub_le _ rest.length)
  obtain ⟨pr', stored, intact', same, fields⟩ :=
    intact.set (fieldAt (buf.drop line)).1 (fieldAt (buf.drop line)).2
  refine ⟨pr', ?_, intact', same, fields⟩
  rw [fieldAt, split, lineOf_of_found found] at stored
  simp only [parsedHeaderParse, points.strchr, ok_bind, if_pos colon, Nat.add_sub_cancel_left,
    points.copyAt List.idxOf_le_length, pointsValue.strstr, found, Option.map_some, deref, value]
  rw [stored]
  rfl

theorem parsedHeaderParse_fault (inside : line ≤ buf.length)
    (endless : ¬ ColonEnds (buf.drop line)) :
    ∃ fault ≠ .unfinished, parsedHeaderParse pr (buf ++ [0]) line = .error fault := by
  have points := points_cstr buf inside
  rw [ColonEnds, not_or, not_not, List.drop_drop, ← Nat.add_assoc] at endless
  obtain ⟨colon, endless⟩ := endless
  have key := points.copyAt (List.idxOf_le_length (a := (58 : UInt8)))
  by_cases short : line + (cstr (buf.drop line)).idxOf 58 + 2 ≤ buf.length
  · have pointsValue := points_cstr buf short
    refine ⟨.nullPointer, by decide, ?_⟩
    simp only [parsedHeaderParse, points.strchr, ok_bind, if_pos colon, Nat.add_sub_cancel_left,
      key, pointsValue.strstr, memmem_eq_none.mpr endless, Option.map_none, deref,
      error_bind]
  · have past : (buf ++ [0]).length ≤ line + (cstr (buf.drop line)).idxOf 58 + 2 := by
      simp
      omega
    refine ⟨.outOfBounds, by decide, ?_⟩
    simp only [parsedHeaderParse, points.strchr, ok_bind, if_pos colon, Nat.add_sub_cancel_left,
      key, strstr, stringAt_past past, error_bind]

end Line

def headerLoop (block : Bytes) : Nat → Nat → ParsedRequest → Checked (Int × ParsedRequest)
  | 0, _, _ => .error .unfinished
  | fuel + 1, currentHeader, parse => do
      let first ← byteAt block currentHeader
      if first = 0 then
        return (0, parse)
      if first = 13 then
        if (← byteAt block (currentHeader + 1)) = 10 then
          return (0, parse)
      let (failed, parse) ← parsedHeaderParse parse block currentHeader
      if failed ≠ 0 then
        return (-1, parse)
      match ← strstr block currentHeader crlf with
      | none => return (0, parse)
      | some next =>
          if (← stringAt block next).length < 2 then
            return (0, parse)
          headerLoop block fuel (next + 2) parse

section Loop

variable {pr : ParsedRequest} {buf raw : Bytes} {fuel i : Nat}

theorem inside_of_drop {text : Bytes} (split : buf.drop i = text) (nonempty : text ≠ []) :
    i ≤ buf.length := by
  by_contra! past
  exact nonempty (split.symm.trans (List.drop_eq_nil_of_le past.le))

theorem split_line {line : Bytes} {lines : List Bytes}
    (split : buf.drop i = terminated (line :: lines) ++ (crlf ++ raw)) :
    buf.drop i = line ++ (crlf ++ (terminated lines ++ (crlf ++ raw))) ∧
      buf.drop (i + line.length + 2) = terminated lines ++ (crlf ++ raw) := by
  have here : buf.drop i = line ++ (crlf ++ (terminated lines ++ (crlf ++ raw))) := by
    rw [split]
    simp
  refine ⟨here, ?_⟩
  have two : 2 = crlf.length := rfl
  rw [Nat.add_assoc, ← List.drop_drop, here, List.drop_length_add_append, two, List.drop_left]

theorem headerLoop_end (split : buf.drop i = crlf ++ raw) :
    headerLoop (buf ++ [0]) (fuel + 1) i pr = .ok (0, pr) := by
  have points := points_cstr buf (inside_of_drop split (by simp [crlf]))
  rw [split, cstr_append (by decide)] at points
  have first : byteAt (buf ++ [0]) i = .ok 13 := points.byteAt_cons
  have second : byteAt (buf ++ [0]) (i + 1) = .ok 10 :=
    (points.drop (n := 1) (by simp [crlf])).byteAt_cons
  simp only [headerLoop, first, second, ok_bind]
  rfl

theorem headerLoop_line {line rest : Bytes} (nonempty : line ≠ []) (clean : ¬ crlf <:+: line)
    (string : 0 ∉ line) (split : buf.drop i = line ++ (crlf ++ rest)) :
    headerLoop (buf ++ [0]) (fuel + 1) i pr = (do
      let (failed, pr) ← parsedHeaderParse pr (buf ++ [0]) i
      if failed ≠ 0 then return (-1, pr)
      headerLoop (buf ++ [0]) fuel (i + line.length + 2) pr) := by
  obtain ⟨c, line, rfl⟩ := List.exists_cons_of_ne_nil nonempty
  have points := points_cstr buf (inside_of_drop split (by simp))
  rw [split, cstr_append string, cstr_append (by decide)] at points
  have first : byteAt (buf ++ [0]) i = .ok c := points.byteAt_cons
  have nonzero : c ≠ 0 := fun zero => string (by simp [zero])
  have second : c = 13 → ∃ d ≠ 10, byteAt (buf ++ [0]) (i + 1) = .ok d := by
    rintro rfl
    have pointsNext := points.drop (n := 1) (by simp)
    cases line with
    | nil => exact ⟨13, by decide, pointsNext.byteAt_cons⟩
    | cons d line =>
        refine ⟨d, ?_, pointsNext.byteAt_cons⟩
        rintro rfl
        exact clean ⟨[], line, rfl⟩
  have searched : strstr (buf ++ [0]) i crlf = .ok (some (i + (c :: line).length)) := by
    rw [points.strstr, memmem_line clean, Option.map_some, List.length_append,
      Nat.add_sub_cancel]
  have next : stringAt (buf ++ [0]) (i + (c :: line).length) = .ok (crlf ++ cstr rest) :=
    points.suffix.stringAt
  have long : ¬ (crlf ++ cstr rest).length < 2 := by simp [crlf]
  have tail : ∀ result : Int × ParsedRequest, (do
      if result.1 ≠ 0 then return (-1, result.2)
      match ← strstr (buf ++ [0]) i crlf with
      | none => return (0, result.2)
      | some next =>
          if (← stringAt (buf ++ [0]) next).length < 2 then return (0, result.2)
          headerLoop (buf ++ [0]) fuel (next + 2) result.2) = (do
      if result.1 ≠ 0 then return (-1, result.2)
      headerLoop (buf ++ [0]) fuel (i + (c :: line).length + 2) result.2 : Checked _) := by
    intro result
    simp only [searched, next, ok_bind, if_neg long]
  rw [headerLoop, first, ok_bind]
  by_cases isReturn : c = 13
  · obtain ⟨d, notFeed, isNext⟩ := second isReturn
    simp only [if_neg nonzero, if_pos isReturn, isNext, ok_bind, if_neg notFeed]
    exact congrArg _ (funext tail)
  · simp only [if_neg nonzero, if_neg isReturn]
    exact congrArg _ (funext tail)

theorem colonEnds_terminated {lines : List Bytes} (string : 0 ∉ terminated lines) (raw : Bytes) :
    ColonEnds (terminated lines ++ (crlf ++ raw)) ↔ 58 ∈ terminated lines ∨ ColonEnds raw := by
  have visible : cstr (terminated lines ++ (crlf ++ raw)) =
      terminated lines ++ (crlf ++ cstr raw) := by
    rw [cstr_append string, cstr_append (by decide)]
  rw [ColonEnds, visible]
  by_cases colon : 58 ∈ terminated lines
  · simp only [colon, true_or, iff_true]
    right
    -- The line that holds the colon is terminated, so both bytes skipped are before the empty line.
    have early : (terminated lines).idxOf 58 + 2 ≤ (terminated lines).length := by
      obtain ⟨before, ends⟩ := terminated_ends fun none : lines = [] => by simp [none] at colon
      rw [← ends] at colon ⊢
      have inside : 58 ∈ before := (List.mem_append.mp colon).resolve_right (by decide)
      have place := List.idxOf_lt_length_iff.mpr inside
      rw [List.idxOf_append_of_mem inside, List.length_append]
      simp only [crlf, List.length_cons, List.length_nil]
      omega
    rw [List.idxOf_append_of_mem colon, List.drop_append_of_le_length early,
      cstr_append (fun h => string (List.mem_of_mem_drop h)), cstr_append (by decide)]
    exact ⟨(terminated lines).drop ((terminated lines).idxOf 58 + 2), cstr raw, by simp⟩
  · have absent : 58 ∉ crlf := by decide
    simp only [colon, false_or, List.mem_append, absent, ColonEnds]
    rw [List.idxOf_append_of_notMem colon, List.idxOf_append_of_notMem absent]
    have skipped : (terminated lines ++ (crlf ++ raw)).drop
        ((terminated lines).length + (crlf.length + (cstr raw).idxOf 58) + 2) =
        raw.drop ((cstr raw).idxOf 58 + 2) := by
      rw [← List.append_assoc, Nat.add_assoc, Nat.add_assoc, ← Nat.add_assoc,
        ← List.length_append, List.drop_length_add_append]
    rw [skipped]

/-- The header lines stay inside the block when the last of them has a colon, or when the search
that it starts for one ends well in `raw`, the text after the empty line. -/
def LinesRead (lines : List Bytes) (raw : Bytes) : Prop :=
  (∀ last ∈ lines.getLast?, 58 ∈ last) ∨ ColonEnds raw

theorem LinesRead.tail {line : Bytes} {lines : List Bytes} (read : LinesRead (line :: lines) raw) :
    LinesRead lines raw := by
  refine read.imp_left fun colon last isLast => colon last ?_
  cases lines with
  | nil => simp at isLast
  | cons line' lines => rwa [List.getLast?_cons_cons]

theorem LinesRead.colonEnds {lines : List Bytes} (read : LinesRead lines raw)
    (nonempty : lines ≠ []) (string : 0 ∉ terminated lines) :
    ColonEnds (terminated lines ++ (crlf ++ raw)) := by
  rw [colonEnds_terminated string]
  refine read.imp_left fun colon => ?_
  have found := colon _ (List.getLast?_eq_some_getLast nonempty)
  exact List.mem_flatMap.mpr ⟨_, List.getLast_mem nonempty, List.mem_append_left _ found⟩

def HeaderLine (line : Bytes) : Prop := line ≠ [] ∧ ¬ crlf <:+: line ∧ 0 ∉ line

theorem notMem_terminated {lines : List Bytes} (headers : ∀ line ∈ lines, HeaderLine line) :
    0 ∉ terminated lines := by
  intro inside
  obtain ⟨line, member, inside⟩ := List.mem_flatMap.mp inside
  rcases List.mem_append.mp inside with here | here
  · exact (headers line member).2.2 here
  · exact absurd here (by decide)

def fieldsRead : List Bytes → Bytes → List (Bytes × Bytes)
  | [], _ => []
  | line :: lines, raw =>
      let text := terminated (line :: lines) ++ (crlf ++ raw)
      if 58 ∈ cstr text then fieldAt text :: fieldsRead lines raw else []

theorem fieldAt_string (text : Bytes) : 0 ∉ (fieldAt text).1 ∧ 0 ∉ (fieldAt text).2 :=
  ⟨fun inside => zero_notMem_cstr _ (List.mem_of_mem_take inside),
    fun inside => zero_notMem_cstr _ ((lineOf_begins _).subset inside)⟩

theorem fieldsRead_string {lines : List Bytes} {field : Bytes × Bytes}
    (member : field ∈ fieldsRead lines raw) : 0 ∉ field.1 ∧ 0 ∉ field.2 := by
  induction lines with
  | nil => simp [fieldsRead] at member
  | cons line lines ih =>
      simp only [fieldsRead] at member
      split at member
      · rcases List.mem_cons.mp member with rfl | member
        · exact fieldAt_string _
        · exact ih member
      · simp at member

def ColonComes (lines : List Bytes) (raw : Bytes) : Prop :=
  (∀ last ∈ lines.getLast?, 58 ∈ last) ∨ 58 ∈ cstr raw

theorem colonComes_cons {line : Bytes} {lines : List Bytes}
    (colon : 58 ∈ terminated (line :: lines) ∨ 58 ∈ cstr raw) :
    ColonComes (line :: lines) raw ↔ ColonComes lines raw := by
  cases lines with
  | nil => simpa [ColonComes, crlf] using colon
  | cons line' lines => rw [ColonComes, ColonComes, List.getLast?_cons_cons]

theorem mem_cstr_terminated {lines : List Bytes} (string : 0 ∉ terminated lines) {c : UInt8}
    (visible : c ∉ crlf) (raw : Bytes) :
    c ∈ cstr (terminated lines ++ (crlf ++ raw)) ↔ c ∈ terminated lines ∨ c ∈ cstr raw := by
  rw [cstr_append string, cstr_append (by decide), List.mem_append, List.mem_append]
  simp only [visible, false_or]

theorem headerLoop_ok {lines : List Bytes} (headers : ∀ line ∈ lines, HeaderLine line)
    (enough : lines.length < fuel) (intact : Intact pr)
    (split : buf.drop i = terminated lines ++ (crlf ++ raw)) (read : LinesRead lines raw) :
    ∃ ret pr', headerLoop (buf ++ [0]) fuel i pr = .ok (ret, pr') ∧ Intact pr' ∧ SameLine pr pr' ∧
      pr'.fields = (fieldsRead lines raw).foldl assign pr.fields ∧
      (ret = 0 ∧ ColonComes lines raw ∨ ret = -1 ∧ ¬ ColonComes lines raw) := by
  induction lines generalizing fuel i pr with
  | nil =>
      obtain ⟨fuel, rfl⟩ := Nat.exists_eq_add_of_lt enough
      exact ⟨0, pr, by simpa using headerLoop_end (by simpa using split), intact, rfl, rfl,
        .inl ⟨rfl, .inl (by simp)⟩⟩
  | cons line lines ih =>
      obtain ⟨fuel, rfl⟩ := Nat.exists_eq_add_of_lt (Nat.zero_lt_of_lt enough)
      obtain ⟨⟨nonempty, clean, string⟩, headers'⟩ := List.forall_mem_cons.mp headers
      have strings := notMem_terminated headers
      have ends := read.colonEnds (by simp) strings
      obtain ⟨here, next⟩ := split_line split
      have inside := inside_of_drop here (by simp [nonempty])
      rw [Nat.zero_add, headerLoop_line nonempty clean string here]
      by_cases colon : 58 ∈ cstr (terminated (line :: lines) ++ (crlf ++ raw))
      · have more := (mem_cstr_terminated strings (by decide) raw).mp colon
        have stored : fieldsRead (line :: lines) raw =
            fieldAt (terminated (line :: lines) ++ (crlf ++ raw)) :: fieldsRead lines raw :=
          if_pos colon
        rw [← split] at colon ends
        obtain ⟨pr', parsed, intact', same, fields⟩ := parsedHeaderParse_ok intact inside colon ends
        obtain ⟨ret, pr'', looped, intact'', same', fields', isRet⟩ :=
          ih headers' (by simpa using enough) intact' next read.tail
        refine ⟨ret, pr'', ?_, intact'', same.trans same', ?_, ?_⟩
        · simpa [parsed, ok_bind] using looped
        · rw [fields', fields, stored, List.foldl_cons, split]
        · rwa [colonComes_cons more]
      · have done : fieldsRead (line :: lines) raw = [] := if_neg colon
        have never : ¬ ColonComes (line :: lines) raw := by
          obtain ⟨noColon, noColon'⟩ :=
            not_or.mp (mt (mem_cstr_terminated strings (by decide) raw).mpr colon)
          rintro (last | body)
          · have found := last _ (List.getLast?_eq_some_getLast (by simp))
            exact noColon (List.mem_flatMap.mpr
              ⟨_, List.getLast_mem (by simp), List.mem_append_left _ found⟩)
          · exact noColon' body
        rw [← split] at colon
        refine ⟨-1, pr, ?_, intact, rfl, by rw [done]; rfl, .inr ⟨rfl, never⟩⟩
        rw [parsedHeaderParse_none inside colon, ok_bind]
        rfl

theorem headerLoop_fault {lines : List Bytes} (headers : ∀ line ∈ lines, HeaderLine line)
    (enough : lines.length < fuel) (intact : Intact pr)
    (split : buf.drop i = terminated lines ++ (crlf ++ raw)) (unread : ¬ LinesRead lines raw) :
    ∃ fault ≠ .unfinished, headerLoop (buf ++ [0]) fuel i pr = .error fault := by
  obtain ⟨noColon, endless⟩ := not_or.mp unread
  induction lines generalizing fuel i pr with
  | nil => simp at noColon
  | cons line lines ih =>
      obtain ⟨fuel, rfl⟩ := Nat.exists_eq_add_of_lt (Nat.zero_lt_of_lt enough)
      obtain ⟨⟨nonempty, clean, string⟩, headers'⟩ := List.forall_mem_cons.mp headers
      have strings := notMem_terminated headers
      have ends := colonEnds_terminated strings raw
      rw [← split] at ends
      obtain ⟨here, next⟩ := split_line split
      have inside := inside_of_drop here (by simp [nonempty])
      rw [Nat.zero_add, headerLoop_line nonempty clean string here]
      by_cases colon : 58 ∈ terminated (line :: lines)
      · -- The line is read, perhaps on into a later one, and the last one is still to come.
        have colon' : 58 ∈ cstr (buf.drop i) := by
          rw [split, cstr_append strings]
          exact List.mem_append_left _ colon
        obtain ⟨pr', parsed, intact', -, -⟩ :=
          parsedHeaderParse_ok intact inside colon' (ends.mpr (.inl colon))
        have more : lines ≠ [] := by
          rintro rfl
          simp_all [crlf]
        have noColon' : ¬ ∀ last ∈ lines.getLast?, 58 ∈ last := by
          obtain ⟨line', lines, rfl⟩ := List.exists_cons_of_ne_nil more
          simpa [List.getLast?_cons_cons] using noColon
        obtain ⟨fault, isFault, looped⟩ :=
          ih headers' (by simpa using enough) intact' next
            (not_or.mpr ⟨noColon', endless⟩) noColon'
        exact ⟨fault, isFault, by simpa [parsed, ok_bind] using looped⟩
      · obtain ⟨fault, isFault, parsed⟩ := parsedHeaderParse_fault inside
          (mt ends.mp (not_or.mpr ⟨colon, endless⟩))
        exact ⟨fault, isFault, by rw [parsed, error_bind]⟩

end Loop

end ProxyServer.ProxyParse
