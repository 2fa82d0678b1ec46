import Mathlib.Data.List.DropRight
import ProxyServer.ProxyParse.FieldLines

namespace ProxyServer.ProxyParse
open Lib Lib.Block Lib.Lines

def isOws (c : UInt8) : Bool := c == 32 || c == 9

def trimOws (s : Bytes) : Bytes := (s.dropWhile isOws).rdropWhile isOws

def fieldOf (line : Bytes) : Bytes × Bytes :=
  (nameOf line, trimOws (line.dropWhile (· != 58)).tail)

def Unbroken (s : Bytes) : Prop := 13 ∉ s ∧ 10 ∉ s

/-- The lines that the parser reads as the grammar does: one blank after the colon, and a value with
none around it. -/
def FieldLine (line : Bytes) : Prop :=
  ∃ name blank value, line = name ++ 58 :: blank :: value ∧ 58 ∉ name ∧ isOws blank ∧
    trimOws value = value ∧ Unbroken name ∧ Unbroken value

def FieldLines : List Bytes → Prop
  | [] => True
  | line :: lines =>
      58 ∈ line ∧ (nameOf line ∉ lines.map nameOf → FieldLine line) ∧ FieldLines lines

theorem cons_ne_append {c d : UInt8} (different : c ≠ d) (s : Bytes) : c :: s ≠ s ++ [d] := by
  induction s with
  | nil => simpa using different
  | cons e s ih =>
      rw [List.cons_append, ne_eq, List.cons.injEq]
      rintro ⟨rfl, rest⟩
      exact ih rest

theorem trimOws_cons_eq_iff (c : UInt8) (value : Bytes) :
    trimOws (c :: value) = value ↔ isOws c ∧ trimOws value = value := by
  by_cases blank : isOws c = true
  · rw [trimOws, List.dropWhile_cons_of_pos blank]
    exact (and_iff_right blank).symm
  · refine iff_of_false (fun same => ?_) (fun both => blank both.1)
    rw [trimOws, List.dropWhile_cons_of_neg blank] at same
    have whole := List.rdropWhile_append_rtakeWhile (p := isOws) (l := c :: value)
    rw [same] at whole
    have one : ((c :: value).rtakeWhile isOws).length = 1 := by
      have lengths := congrArg List.length whole
      rw [List.length_append, List.length_cons] at lengths
      omega
    obtain ⟨d, isLast⟩ := List.length_eq_one_iff.mp one
    have last : isOws d = true :=
      List.mem_rtakeWhile_imp (p := isOws) (l := c :: value) (by rw [isLast]; simp)
    rw [isLast] at whole
    refine cons_ne_append (fun isD : c = d => ?_) value whole.symm
    rw [isD] at blank
    exact blank last

section Line

variable {line : Bytes} {lines : List Bytes}

theorem fieldOf_cut {name : Bytes} (absent : 58 ∉ name) (rest : Bytes) :
    fieldOf (name ++ 58 :: rest) = (name, trimOws rest) := by
  rw [fieldOf, nameOf_cut absent, (cut_at absent rest).2, List.tail_cons]

theorem fieldAt_eq_iff (colon : 58 ∈ line) (header : HeaderLine line) (rest : Bytes) :
    fieldAt (line ++ (crlf ++ rest)) = fieldOf line ∧
        Unbroken (fieldOf line).1 ∧ Unbroken (fieldOf line).2 ↔ FieldLine line := by
  obtain ⟨name, value, rfl, absent⟩ := List.eq_append_cons_of_mem colon
  obtain ⟨-, clean, string⟩ := header
  have stringName : 0 ∉ name := fun inside => string (List.mem_append_left _ inside)
  rw [fieldOf_cut absent, List.append_assoc]
  cases value with
  | nil =>
      refine iff_of_false (fun read => ?_) ?_
      · have same := read.1
        rw [List.cons_append, List.nil_append, fieldAt_empty absent stringName] at same
        exact absurd (congrArg Prod.snd same) (by simp [trimOws])
      · rintro ⟨name', blank, value, split, absent', -⟩
        have after := congrArg (List.dropWhile (· != 58)) split
        rw [(cut_at absent []).2, (cut_at absent' _).2] at after
        simp at after
  | cons skipped value =>
      have cleanValue : ¬ crlf <:+: value := fun inside => clean
        (inside.trans ((List.suffix_append (name ++ [58, skipped]) value).isInfix.trans (by simp)))
      have stringValue : 0 ∉ value := fun inside => string (by simp [inside])
      have read := fieldAt_value absent stringName stringValue cleanValue skipped rest
      rw [List.cons_append, List.cons_append, read, Prod.mk.injEq, and_iff_right rfl, eq_comm]
      constructor
      · rintro ⟨trimmed, name', value'⟩
        rw [trimmed] at value'
        obtain ⟨blank, kept⟩ := (trimOws_cons_eq_iff skipped value).mp trimmed
        exact ⟨name, skipped, value, rfl, absent, blank, kept, name', value'⟩
      · rintro ⟨name', blank, value', split, absent', isBlank, kept, unbroken, unbroken'⟩
        have isName := congrArg nameOf split
        rw [nameOf_cut absent, nameOf_cut absent'] at isName
        subst isName
        obtain ⟨rfl, rfl⟩ := by simpa using split
        have trimmed := (trimOws_cons_eq_iff skipped value).mpr ⟨isBlank, kept⟩
        rw [trimmed]
        exact ⟨rfl, unbroken, unbroken'⟩

theorem FieldLines.colons (good : FieldLines lines) : ∀ line ∈ lines, 58 ∈ line := by
  induction lines with
  | nil => simp
  | cons line lines ih => exact List.forall_mem_cons.mpr ⟨good.1, ih good.2.2⟩

theorem keys_fieldsRead (colons : ∀ line ∈ lines, 58 ∈ line)
    (headers : ∀ line ∈ lines, HeaderLine line) (raw : Bytes) :
    keys (fieldsRead lines raw) = lines.map nameOf := by
  induction lines with
  | nil => rfl
  | cons line lines ih =>
      obtain ⟨colon, colons'⟩ := List.forall_mem_cons.mp colons
      obtain ⟨header, headers'⟩ := List.forall_mem_cons.mp headers
      rw [fieldsRead_cons (mem_terminated_cons colon lines) headers, keys_cons,
        fieldAt_name colon header, ih colons' headers', List.map_cons]

theorem keys_fieldOf (lines : List Bytes) : keys (lines.map fieldOf) = lines.map nameOf := by
  rw [keys, List.map_map]
  rfl

theorem fieldsRead_eq_iff (colons : ∀ line ∈ lines, 58 ∈ line)
    (headers : ∀ line ∈ lines, HeaderLine line) (raw : Bytes) :
    latest (fieldsRead lines raw) = latest (lines.map fieldOf) ∧
        (∀ field ∈ latest (lines.map fieldOf), Unbroken field.1 ∧ Unbroken field.2) ↔
      FieldLines lines := by
  induction lines with
  | nil => simp [fieldsRead, FieldLines]
  | cons line lines ih =>
      obtain ⟨colon, colons'⟩ := List.forall_mem_cons.mp colons
      obtain ⟨header, headers'⟩ := List.forall_mem_cons.mp headers
      have isName := fieldAt_name colon header (terminated lines ++ (crlf ++ raw))
      have rest := keys_fieldsRead colons' headers' raw
      have here := fieldAt_eq_iff colon header (terminated lines ++ (crlf ++ raw))
      have ih := ih colons' headers'
      have sameKey : (fieldAt (line ++ (crlf ++ (terminated lines ++ (crlf ++ raw))))).1 =
          (fieldOf line).1 := isName
      have sameKeys : keys (fieldsRead lines raw) = keys (lines.map fieldOf) := by
        rw [rest, keys_fieldOf]
      rw [fieldsRead_cons (mem_terminated_cons colon lines) headers, List.map_cons,
        latest_cons_eq_iff sameKey sameKeys, isName, rest, FieldLines, ← ih]
      by_cases later : nameOf line ∈ lines.map nameOf
      · have later' : (fieldOf line).1 ∈ keys (lines.map fieldOf) := by rwa [keys_fieldOf]
        rw [latest_cons_of_mem later']
        simp [later, colon]
      · have last' : (fieldOf line).1 ∉ keys (lines.map fieldOf) := by rwa [keys_fieldOf]
        rw [latest_cons_of_notMem last', List.forall_mem_cons, ← here]
        simp only [later, not_false_eq_true, forall_const, colon, true_and]
        tauto

theorem host_mem_keys_iff (headers : ∀ line ∈ lines, HeaderLine line) {raw : Bytes}
    (comes : ColonComes lines raw) :
    ascii "Host" ∈ keys (fieldsRead lines raw) ↔ ∃ line ∈ lines, ascii "Host:" <+: line := by
  induction lines with
  | nil => simp [fieldsRead]
  | cons line lines ih =>
      obtain ⟨header, headers'⟩ := List.forall_mem_cons.mp headers
      have more : 58 ∈ terminated (line :: lines) ∨ 58 ∈ cstr raw := by
        refine comes.imp_left fun last => ?_
        have found := last _ (List.getLast?_eq_some_getLast (by simp))
        exact List.mem_flatMap.mpr ⟨_, List.getLast_mem (by simp), List.mem_append_left _ found⟩
      have ih := ih headers' ((colonComes_cons more).mp comes)
      have colon : 58 ∈ cstr (terminated (line :: lines) ++ (crlf ++ raw)) :=
        (mem_cstr_terminated (notMem_terminated headers) (by decide) raw).mpr more
      have isText : terminated (line :: lines) ++ (crlf ++ raw) =
          line ++ (crlf ++ (terminated lines ++ (crlf ++ raw))) := by simp
      rw [fieldsRead, if_pos colon, keys_cons, List.mem_cons, ih, List.exists_mem_cons_iff]
      refine or_congr_left ?_
      by_cases own : 58 ∈ line
      · rw [isText, fieldAt_name own header]
        obtain ⟨name, value, rfl, absent⟩ := List.eq_append_cons_of_mem own
        have host : ascii "Host:" = ascii "Host" ++ [58] := rfl
        rw [nameOf_cut absent, host]
        constructor
        · rintro rfl
          exact ⟨value, by simp⟩
        · rintro ⟨value', split⟩
          have names := congrArg nameOf split
          rwa [List.append_assoc, List.singleton_append, nameOf_cut (by decide),
            nameOf_cut absent] at names
      · -- The name goes on over the end of the line.
        refine iff_of_false (fun isHost => ?_) fun starts => own (starts.subset (by decide))
        have whole : cstr (terminated (line :: lines) ++ (crlf ++ raw)) =
            line ++ (crlf ++ cstr (terminated lines ++ (crlf ++ raw))) := by
          rw [isText, cstr_append header.2.2, cstr_append (by decide)]
        have isKey : (fieldAt (terminated (line :: lines) ++ (crlf ++ raw))).1 =
            line ++ (crlf ++ (cstr (terminated lines ++ (crlf ++ raw))).take
              ((cstr (terminated lines ++ (crlf ++ raw))).idxOf 58)) := by
          have absent : 58 ∉ crlf := by decide
          rw [fieldAt, whole, List.idxOf_append_of_notMem own, List.idxOf_append_of_notMem absent,
            List.take_length_add_append, List.take_length_add_append]
        have broken : 13 ∈ ascii "Host" := by
          rw [isHost, isKey]
          simp [crlf]
        exact absurd broken (by decide)

end Line

/-- A table is the one that the grammar makes of the header lines, with no line break in it, and a
line without a colon makes the parse fail. -/
structure FollowsGrammar (errno : Int) (port : Port) (buf : Bytes) (lines : List Bytes) : Prop where
  table : ∀ pr, parsedRequestParse errno (newRequest port) buf = .ok (0, pr) →
    pr.fields = latest (lines.map fieldOf) ∧
      ∀ field ∈ pr.fields, Unbroken field.1 ∧ Unbroken field.2
  colonless : (∃ line ∈ lines, 58 ∉ line) →
    ∃ pr, parsedRequestParse errno (newRequest port) buf = .ok (-1, pr)

def FailsLater (p : Parts) : Prop :=
  LinesRead p.lines p.body ∧
    ¬ (ColonComes p.lines p.body ∧ (p.method = ascii "GET" →
      memmem (unlayered p.address) (ascii "://") = none → ∃ line ∈ p.lines, ascii "Host:" <+: line))

def GoodOrRefused (errno : Int) (buf first : Bytes) (lines : List Bytes) (body : Bytes) : Prop :=
  Sized buf → ∀ method address after, requestWords first = some (method, address, after) →
    method = ascii "GET" ∨ method = ascii "CONNECT" →
    (after = [] → ∀ line ∈ lines, 58 ∈ line) ∧
      (Accepted errno method address after →
        FieldLines lines ∨ FailsLater ⟨first, lines, body, method, address, after⟩)

section Grammar

variable {errno : Int} {port : Port} {buf first body : Bytes} {lines : List Bytes}

theorem FollowsGrammar.of_refused {pr : ParsedRequest}
    (refused : parsedRequestParse errno (newRequest port) buf = .ok (-1, pr)) :
    FollowsGrammar errno port buf lines where
  table pr' accepted := by
    rw [refused] at accepted
    simp at accepted
  colonless _ := ⟨pr, refused⟩

theorem followsGrammar_of_fault {fault : Fault}
    (failed : parsedRequestParse errno (newRequest port) buf = .error fault) :
    FollowsGrammar errno port buf lines ↔ ∀ line ∈ lines, 58 ∈ line := by
  constructor
  · intro follows
    by_contra! colonless
    obtain ⟨pr, refused⟩ := follows.colonless colonless
    rw [failed] at refused
    simp at refused
  · intro colons
    constructor
    · intro pr accepted
      rw [failed] at accepted
      simp at accepted
    · rintro ⟨line, member, colonless⟩
      exact absurd (colons line member) colonless

theorem Parts.Of.grammar_iff_of_accepted {p : Parts} {pr : ParsedRequest} (of : p.Of buf)
    (accepted : parsedRequestParse errno (newRequest port) buf = .ok (0, pr))
    (fields : pr.fields = latest (fieldsRead p.lines p.body)) :
    FollowsGrammar errno port buf p.lines ↔ FieldLines p.lines := by
  have headers := of.request.headers
  constructor
  · intro follows
    have all : ∀ line ∈ p.lines, 58 ∈ line := by
      by_contra! colonless
      obtain ⟨pr', refused⟩ := follows.colonless colonless
      rw [accepted] at refused
      simp at refused
    obtain ⟨table, unbroken⟩ := follows.table pr accepted
    rw [table] at unbroken
    exact (fieldsRead_eq_iff all headers p.body).mp ⟨fields.symm.trans table, unbroken⟩
  · intro good
    obtain ⟨table, unbroken⟩ := (fieldsRead_eq_iff good.colons headers p.body).mpr good
    constructor
    · intro pr' accepted'
      obtain ⟨-, rfl⟩ : (0 : Int) = 0 ∧ pr = pr' := by simpa using accepted.symm.trans accepted'
      rw [fields, table]
      exact ⟨rfl, unbroken⟩
    · rintro ⟨line, member, colonless⟩
      exact absurd (good.colons line member) colonless

theorem Parts.Of.grammar_iff_of_line {p : Parts} (of : p.Of buf)
    (line : Accepted errno p.method p.address p.after) :
    FollowsGrammar errno port buf p.lines ↔ FieldLines p.lines ∨ FailsLater p := by
  have hosted (comes : ColonComes p.lines p.body) :
      Hosted p (keys (fieldsRead p.lines p.body)) ↔ (p.method = ascii "GET" →
        memmem (unlayered p.address) (ascii "://") = none →
          ∃ line ∈ p.lines, ascii "Host:" <+: line) := by
    rw [Hosted, host_mem_keys_iff of.request.headers comes]
  obtain ⟨pr, ⟨colons, isHosted, accepted, fields⟩ | ⟨refused, failed⟩⟩ := of.parse line port
  · rw [of.grammar_iff_of_accepted accepted fields]
    exact (or_iff_left fun later => later.2 ⟨colons, (hosted colons).mp isHosted⟩).symm
  · refine iff_of_true (.of_refused failed) (.inr ⟨of.linesRead, fun both => refused ?_⟩)
    exact ⟨both.1, (hosted both.1).mpr both.2⟩

theorem followsGrammar_iff (request : IsRequest buf first lines body) :
    FollowsGrammar errno port buf lines ↔ GoodOrRefused errno buf first lines body := by
  by_cases sized : Sized buf
  · by_cases known : ∃ method address after, requestWords first = some (method, address, after) ∧
        (method = ascii "GET" ∨ method = ascii "CONNECT")
    · obtain ⟨method, address, after, words, known⟩ := known
      have only : GoodOrRefused errno buf first lines body ↔
          (after = [] → ∀ line ∈ lines, 58 ∈ line) ∧ (Accepted errno method address after →
            FieldLines lines ∨ FailsLater ⟨first, lines, body, method, address, after⟩) := by
        constructor
        · exact fun good => good sized method address after words known
        · rintro good - method' address' after' words' -
          obtain ⟨rfl, rfl, rfl⟩ : method = method' ∧ address = address' ∧ after = after' := by
            simpa using words.symm.trans words'
          exact good
      rw [only]
      by_cases spaced : after = []
      · subst spaced
        have unread : ¬ Accepted errno method address [] := fun line =>
          HttpVersion.spaced line.1 rfl
        rw [followsGrammar_of_fault (request.parse_noVersion sized words known rfl)]
        simp [unread]
      · obtain ⟨block, start, fullAddr, version, cut⟩ :=
          exists_cut request.first.2 words spaced known
        simp only [spaced, false_implies, true_and]
        by_cases line : Accepted errno method address after
        · simp only [line, forall_const]
          by_cases linesRead : LinesRead lines body
          · exact Parts.Of.grammar_iff_of_line (p := ⟨first, lines, body, method, address,
              after⟩) ⟨request, sized, words, known, line.1, linesRead⟩ line
          · obtain ⟨fault, -, failed⟩ := request.parseLines_fault (.newRequest port)
              fun reads => linesRead ((reads method address after words known).2 line)
            rw [followsGrammar_of_fault ((request.parse_eq rfl sized).trans failed)]
            have noColon : ¬ ∀ line ∈ lines, 58 ∈ line := fun colons =>
              linesRead (.inl fun last isLast => colons last (List.mem_of_getLast? isLast))
            refine iff_of_false noColon ?_
            rintro (good | later)
            · exact noColon good.colons
            · exact linesRead later.1
        · refine iff_of_true ?_ fun line' => absurd line' line
          by_cases http : HttpVersion after
          · obtain ⟨⟨parse', goesOn⟩, targeted, decides, -⟩ :=
              @parseTarget_read errno (withLine (newRequest port) block start version) _ _ _ _ _ rfl
                rfl cut.pointsMethod cut.pointsAddress
            cases goesOn with
            | true => exact absurd ⟨http, decides.mp rfl⟩ line
            | false => exact .of_refused (request.parse_refused sized cut http rfl targeted)
          · exact .of_refused (request.parse_notHttp sized cut http rfl)
    · obtain ⟨method, refused⟩ := request.parse_unknown sized
        fun method address after words => not_or.mp fun known' =>
          known ⟨method, address, after, words, known'⟩
      exact iff_of_true (.of_refused (refused errno _ rfl)) fun _ method address after words known' =>
        absurd ⟨method, address, after, words, known'⟩ known
  · exact iff_of_true (.of_refused (parse_refused rfl (or_assoc.mp (.inl (not_not.mp sized)))))
      fun sized' => absurd sized' sized

theorem spaced_followsGrammar :
    FollowsGrammar 0 .null (ascii "GET http://a/ HTTP/1.1\r\nX: 1\r\n\r\n") [ascii "X: 1"] := by
  have request : IsRequest (ascii "GET http://a/ HTTP/1.1\r\nX: 1\r\n\r\n")
      (ascii "GET http://a/ HTTP/1.1") [ascii "X: 1"] [] := by
    refine ⟨by decide, by decide, ?_⟩
    simp only [List.mem_singleton, forall_eq]
    exact ⟨by decide, by decide, by decide⟩
  refine (followsGrammar_iff request).mpr fun _ method address after words _ => ⟨?_, fun _ => ?_⟩
  · simp only [List.mem_singleton, forall_eq]
    exact fun _ => by decide
  · refine .inl ⟨by decide, fun _ => ?_, trivial⟩
    exact ⟨ascii "X", 32, ascii "1", by decide, by decide, by decide, by decide, ⟨by decide,
      by decide⟩, by decide, by decide⟩

theorem colonless_accepted :
    IsRequest (ascii "GET http://a/ HTTP/1.1\r\nA\r\nB: 1\r\n\r\n")
        (ascii "GET http://a/ HTTP/1.1") [ascii "A", ascii "B: 1"] [] ∧
      ¬ FollowsGrammar 0 .null (ascii "GET http://a/ HTTP/1.1\r\nA\r\nB: 1\r\n\r\n")
        [ascii "A", ascii "B: 1"] := by
  constructor
  · refine ⟨by decide, by decide, ?_⟩
    simp only [List.forall_mem_cons, HeaderLine]
    decide
  · intro follows
    obtain ⟨pr, refused⟩ := follows.colonless ⟨ascii "A", by decide, by decide⟩
    have accepted : (parsedRequestParse 0 (newRequest .null)
        (ascii "GET http://a/ HTTP/1.1\r\nA\r\nB: 1\r\n\r\n")).toOption.map (·.1) = some 0 := by
      decide +kernel
    simp [refused, Except.toOption] at accepted

end Grammar

end ProxyServer.ProxyParse
