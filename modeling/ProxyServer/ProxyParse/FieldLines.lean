import ProxyServer.ProxyParse.Accepted
import ProxyServer.ProxyParse.Unparse

namespace ProxyServer.ProxyParse
open Lib Lib.Block Lib.Lines

def nameOf (line : Bytes) : Bytes := line.takeWhile (· != 58)

section Line

variable {line name value : Bytes}

theorem fieldAt_value (absent : 58 ∉ name) (stringName : 0 ∉ name) (stringValue : 0 ∉ value)
    (clean : ¬ crlf <:+: value) (skipped : UInt8) (rest : Bytes) :
    fieldAt (name ++ 58 :: skipped :: (value ++ (crlf ++ rest))) = (name, value) := by
  have place (more : Bytes) : (name ++ 58 :: more).idxOf 58 = name.length := by
    rw [List.idxOf_append_of_notMem absent, List.idxOf_cons_self, Nat.add_zero]
  have visible : cstr (name ++ 58 :: skipped :: (value ++ (crlf ++ rest))) =
      name ++ 58 :: cstr (skipped :: (value ++ (crlf ++ rest))) := by
    rw [cstr_append stringName]
    rfl
  have isValue : (name ++ 58 :: skipped :: (value ++ (crlf ++ rest))).drop (name.length + 2) =
      value ++ (crlf ++ rest) := by
    rw [List.drop_length_add_append]
    rfl
  rw [fieldAt, visible, place, List.take_left, isValue, cstr_append stringValue,
    cstr_append (by decide), lineOf_append clean]

/-- A line that ends with its colon: the bytes skipped are the colon and the carriage return, so
the value starts with the line feed and goes on through the next line. -/
theorem fieldAt_empty (absent : 58 ∉ name) (stringName : 0 ∉ name) (rest : Bytes) :
    fieldAt (name ++ 58 :: (crlf ++ rest)) = (name, 10 :: lineOf (cstr rest)) := by
  have visible : cstr (name ++ 58 :: (crlf ++ rest)) = name ++ 58 :: (crlf ++ cstr rest) := by
    rw [cstr_append stringName]
    exact congrArg (name ++ 58 :: ·) (@cstr_append crlf (by decide) rest)
  have isValue : (name ++ 58 :: (crlf ++ rest)).drop (name.length + 2) = 10 :: rest := by
    rw [List.drop_length_add_append]
    rfl
  have isLine (text : Bytes) : lineOf (10 :: text) = 10 :: lineOf text := by
    have notHere : ¬ crlf.isPrefixOf (10 :: text) = true := by simp [crlf]
    simp only [lineOf, memmem_cons, if_neg notHere]
    split
    · rfl
    · rename_i rest found
      have shorter := (memmem_suffix found).length_le
      rw [List.length_cons, Nat.succ_sub shorter, List.take_succ_cons]
  rw [fieldAt, visible, List.idxOf_append_of_notMem absent, List.idxOf_cons_self, Nat.add_zero,
    List.take_left, isValue, ← isLine]
  rfl

theorem colon_notMem_fieldAt (text : Bytes) : 58 ∉ (fieldAt text).1 := by
  rw [fieldAt]
  by_cases colon : 58 ∈ cstr text
  · obtain ⟨name, rest, split, absent⟩ := List.eq_append_cons_of_mem colon
    rw [split, List.idxOf_append_of_notMem absent, List.idxOf_cons_self, Nat.add_zero,
      List.take_left]
    exact absent
  · exact fun inside => colon (List.mem_of_mem_take inside)

theorem nameOf_cut {name : Bytes} (absent : 58 ∉ name) (rest : Bytes) :
    nameOf (name ++ 58 :: rest) = name := (cut_at absent rest).1

theorem fieldAt_name (colon : 58 ∈ line) (header : HeaderLine line) (rest : Bytes) :
    (fieldAt (line ++ (crlf ++ rest))).1 = nameOf line := by
  obtain ⟨name, value, rfl, absent⟩ := List.eq_append_cons_of_mem colon
  have string : 0 ∉ name := fun inside => header.2.2 (List.mem_append_left _ inside)
  have visible : cstr (name ++ 58 :: value ++ (crlf ++ rest)) =
      name ++ 58 :: cstr (value ++ (crlf ++ rest)) := by
    rw [List.append_assoc, cstr_append string]
    rfl
  rw [nameOf_cut absent, fieldAt, visible, List.idxOf_append_of_notMem absent,
    List.idxOf_cons_self, Nat.add_zero, List.take_left]

theorem fieldsRead_cons {lines : List Bytes} (colon : 58 ∈ terminated (line :: lines))
    (headers : ∀ line' ∈ line :: lines, HeaderLine line') (raw : Bytes) :
    fieldsRead (line :: lines) raw =
      fieldAt (line ++ (crlf ++ (terminated lines ++ (crlf ++ raw)))) :: fieldsRead lines raw := by
  have visible : 58 ∈ cstr (terminated (line :: lines) ++ (crlf ++ raw)) :=
    (mem_cstr_terminated (notMem_terminated headers) (by decide) raw).mpr (.inl colon)
  rw [fieldsRead, if_pos visible, terminated_cons]
  simp only [List.append_assoc]

theorem mem_terminated_cons {c : UInt8} (own : c ∈ line) (lines : List Bytes) :
    c ∈ terminated (line :: lines) := by
  rw [terminated_cons]
  exact List.mem_append_left _ own

end Line

theorem length_headerText_le {fields : List (Bytes × Bytes)} {n : Nat}
    (bound : ∀ field ∈ fields, field.1.length + field.2.length ≤ n) :
    (headerText fields).length ≤ fields.length * (n + 4) + 2 := by
  induction fields with
  | nil => simp [headerText, crlf]
  | cons field fields ih =>
      obtain ⟨here, later⟩ := List.forall_mem_cons.mp bound
      have rest := ih later
      rw [length_headerText_cons, List.length_cons, Nat.succ_mul]
      omega

theorem length_fieldAt (text : Bytes) :
    (fieldAt text).1.length + (fieldAt text).2.length ≤ text.length := by
  have key : (fieldAt text).1.length ≤ (cstr text).idxOf 58 := List.length_take_le _ _
  have whole : (fieldAt text).1.length ≤ text.length :=
    ((List.take_prefix _ _).length_le).trans (List.takeWhile_prefix _).length_le
  have value : (fieldAt text).2.length ≤ text.length - ((cstr text).idxOf 58 + 2) := by
    have visible := (lineOf_begins (cstr (text.drop ((cstr text).idxOf 58 + 2)))).length_le
    have shown : (cstr (text.drop ((cstr text).idxOf 58 + 2))).length ≤ _ :=
      (List.takeWhile_prefix _).length_le
    rw [List.length_drop] at shown
    exact visible.trans shown
  omega

theorem length_fieldsRead (lines : List Bytes) (raw : Bytes) :
    (fieldsRead lines raw).length ≤ lines.length ∧
      ∀ field ∈ fieldsRead lines raw, field.1.length + field.2.length ≤
        (terminated lines ++ (crlf ++ raw)).length := by
  induction lines with
  | nil => simp [fieldsRead]
  | cons line lines ih =>
      simp only [fieldsRead]
      split
      · refine ⟨Nat.succ_le_succ ih.1, List.forall_mem_cons.mpr ⟨length_fieldAt _, ?_⟩⟩
        intro field member
        refine (ih.2 field member).trans ?_
        simp only [terminated_cons, List.length_append]
        omega
      · simp

theorem length_terminated_ge {lines : List Bytes} (headers : ∀ line ∈ lines, HeaderLine line) :
    3 * lines.length ≤ (terminated lines).length := by
  induction lines with
  | nil => simp
  | cons line lines ih =>
      obtain ⟨here, later⟩ := List.forall_mem_cons.mp headers
      have rest := ih later
      have nonempty := List.length_pos_of_ne_nil here.1
      simp only [terminated_cons, List.length_append, List.length_cons, crlf, List.length_nil]
      omega

theorem Parts.Of.small {p : Parts} {buf : Bytes} (of : p.Of buf) :
    (headerText (latest (fieldsRead p.lines p.body))).length < 2 ^ 31 - 2 ^ 20 := by
  have short : buf.length ≤ 65535 := by
    by_contra! long
    exact of.sized (.inr long)
  rw [of.request.text] at short
  simp only [List.length_append] at short
  have many := length_terminated_ge of.request.headers
  obtain ⟨few, bound⟩ := length_fieldsRead p.lines p.body
  have kept : (latest (fieldsRead p.lines p.body)).length ≤ (fieldsRead p.lines p.body).length :=
    (latest_sublist _).length_le
  have sum := @length_headerText_le (latest (fieldsRead p.lines p.body)) 65535
    fun field member => (bound field (mem_of_mem_latest member)).trans (by
      simp only [List.length_append]
      omega)
  have total : (latest (fieldsRead p.lines p.body)).length * 65539 ≤ 21845 * 65539 :=
    Nat.mul_le_mul_right _ (by omega)
  omega

structure Field where
  name : Bytes
  value : Bytes
  named : name ≠ []
  nameClean : ∀ c ∈ name, c ≠ 58 ∧ c ≠ 13 ∧ c ≠ 10 ∧ c ≠ 0
  valueClean : ∀ c ∈ value, c ≠ 13 ∧ c ≠ 10 ∧ c ≠ 0

def Field.pair (field : Field) : Bytes × Bytes := (field.name, field.value)

def Field.line (field : Field) : Bytes := fieldLine field.pair

theorem Field.colon (field : Field) : 58 ∈ field.line := by
  rw [line, fieldLine]
  exact List.mem_append_right _ (List.mem_append_left _ (by decide))

theorem notInfix_of_notMem {s : Bytes} (absent : 13 ∉ s) : ¬ crlf <:+: s := fun inside =>
  absent (inside.subset (by decide))

theorem Field.headerLine (field : Field) : HeaderLine field.line := by
  have clean (c : UInt8) (none : c = 13 ∨ c = 0) : c ∉ field.line := by
    simp only [line, fieldLine, List.mem_append, not_or]
    refine ⟨fun inside => ?_, ?_, fun inside => ?_⟩
    · have ok := field.nameClean c inside
      exact none.elim ok.2.1 ok.2.2.2
    · rcases none with rfl | rfl <;> decide
    · have ok := field.valueClean c inside
      exact none.elim ok.1 ok.2.2
  refine ⟨List.ne_nil_of_mem field.colon, notInfix_of_notMem (clean 13 (.inl rfl)),
    clean 0 (.inr rfl)⟩

theorem fieldsRead_lines (fields : List Field) (raw : Bytes) :
    fieldsRead (fields.map Field.line) raw = fields.map Field.pair := by
  induction fields with
  | nil => rfl
  | cons field fields ih =>
      have headers : ∀ line ∈ (field :: fields).map Field.line, HeaderLine line := by
        simp only [List.forall_mem_map]
        exact fun field _ => field.headerLine
      have isLine (rest : Bytes) :
          field.line ++ rest = field.name ++ 58 :: 32 :: (field.value ++ rest) := by
        have two : ascii ": " = [58, 32] := rfl
        simp [Field.line, fieldLine, Field.pair, two]
      rw [List.map_cons] at headers ⊢
      rw [fieldsRead_cons (mem_terminated_cons field.colon _) headers, isLine, ih,
        fieldAt_value (fun inside => (field.nameClean 58 inside).1 rfl)
          (fun inside => (field.nameClean 0 inside).2.2.2 rfl)
          (fun inside => (field.valueClean 0 inside).2.2 rfl)
          (notInfix_of_notMem fun inside => (field.valueClean 13 inside).1 rfl)]
      rfl

structure Message where
  first : Bytes
  method : Bytes
  address : Bytes
  after : Bytes
  fields : List Field
  body : Bytes
  clean : ¬ crlf <:+: first ∧ 0 ∉ first
  words : requestWords first = some (method, address, after)
  known : method = ascii "GET" ∨ method = ascii "CONNECT"
  http : HttpVersion after
  sized : Sized (first ++ (crlf ++ (terminated (fields.map Field.line) ++ (crlf ++ body))))

namespace Message

def text (m : Message) : Bytes :=
  m.first ++ (crlf ++ (terminated (m.fields.map Field.line) ++ (crlf ++ m.body)))

def names (m : Message) : List Bytes := m.fields.map Field.name

def kept (m : Message) : List (Bytes × Bytes) := latest (m.fields.map Field.pair)

def parts (m : Message) : Parts where
  first := m.first
  lines := m.fields.map Field.line
  body := m.body
  method := m.method
  address := m.address
  after := m.after

theorem lastColon (m : Message) : ∀ last ∈ m.parts.lines.getLast?, 58 ∈ last := by
  intro last isLast
  obtain ⟨field, -, rfl⟩ := List.mem_map.mp (List.mem_of_getLast? isLast)
  exact field.colon

theorem of (m : Message) : m.parts.Of m.text where
  request :=
    { text := rfl
      first := m.clean
      headers := by
        simp only [parts, List.forall_mem_map]
        exact fun field _ => field.headerLine }
  sized := m.sized
  words := m.words
  known := m.known
  http := m.http
  linesRead := .inl m.lastColon

theorem fieldsRead_eq (m : Message) : fieldsRead m.parts.lines m.parts.body =
    m.fields.map Field.pair := fieldsRead_lines m.fields m.body

theorem keys_fieldsRead (m : Message) :
    keys (fieldsRead m.parts.lines m.parts.body) = m.names := by
  rw [m.fieldsRead_eq, keys, List.map_map]
  rfl

theorem accepts (m : Message) {errno : Int} (valid : Valid errno m.parts m.names) (port : Port) :
    ∃ pr, parsedRequestParse errno (newRequest port) m.text = .ok (0, pr) ∧
      pr.fields = m.kept := by
  rw [← m.keys_fieldsRead] at valid
  rw [kept, ← m.fieldsRead_eq]
  exact m.of.accepts (.inl m.lastColon) valid port

theorem valid_connect (m : Message) {errno : Int} (isConnect : m.method = ascii "CONNECT")
    (connects : ConnectAccepted m.address) : Valid errno m.parts m.names :=
  ⟨⟨m.http, (if_pos isConnect).mpr connects⟩, fun isGet =>
    absurd (isConnect.symm.trans isGet) (by decide)⟩

theorem valid_get (m : Message) {errno : Int} (isGet : m.method = ascii "GET")
    (gets : GetAccepted errno m.address)
    (hosted : memmem (unlayered m.address) (ascii "://") = none → ascii "Host" ∈ m.names) :
    Valid errno m.parts m.names := by
  have other : m.parts.method ≠ ascii "CONNECT" := fun same =>
    absurd (isGet.symm.trans same) (by decide)
  exact ⟨⟨m.http, (if_neg other).mpr gets⟩, fun _ => hosted⟩

end Message

theorem held_of_accepted {errno : Int} {port : Port} {buf : Bytes} {pr : ParsedRequest}
    (accepted : parsedRequestParse errno (newRequest port) buf = .ok (0, pr)) : pr.buf ≠ none := by
  obtain ⟨p, of, -, -, -⟩ := exists_parts accepted
  intro none
  rcases of.known with isGet | isConnect
  · have text := (of.get isGet accepted).1
    simp [ParsedRequest.textAt, none] at text
  · have text := (of.connect isConnect accepted).1
    simp [ParsedRequest.textAt, none] at text

theorem small_of_accepted {errno : Int} {port : Port} {buf : Bytes} {pr : ParsedRequest}
    (accepted : parsedRequestParse errno (newRequest port) buf = .ok (0, pr)) :
    (headerText pr.fields).length < 2 ^ 31 - 2 ^ 20 := by
  obtain ⟨p, of, -, fields, -⟩ := exists_parts accepted
  rw [fields]
  exact of.small

/-- The headers of a request made of fields come back as the last line of each name, in order. -/
theorem headers_roundTrip (m : Message) (errno : Int) (port : Port)
    (valid : Valid errno m.parts m.names) :
    ∃ pr, parsedRequestParse errno (newRequest port) m.text = .ok (0, pr) ∧
      parsedHeaderHeadersLen pr = (headerText m.kept).length ∧
      ∀ block buf len, parsedHeaderHeadersLen pr < len → buf + len ≤ block.length →
        parsedRequestUnparseHeaders pr block buf len =
          .ok (0, block.take buf ++ (headerText m.kept ++ [0]) ++
            block.drop (buf + (headerText m.kept).length + 1)) := by
  obtain ⟨pr, accepted, fields⟩ := m.accepts valid port
  have held := held_of_accepted accepted
  have length : parsedHeaderHeadersLen pr = (headerText m.kept).length := by
    rw [headersLen_eq held (by have := small_of_accepted accepted; omega), fields]
  refine ⟨pr, accepted, length, fun block buf len enough fits => ?_⟩
  have short : ¬ len < parsedHeaderHeadersLen pr := by omega
  have inside : buf + (headerText m.kept ++ [0]).length ≤ block.length := by
    rw [List.length_append, List.length_singleton]
    omega
  simp only [parsedRequestUnparseHeaders, if_neg held, printHeaders_eq, if_neg short, fields,
    writeAt_ok inside, ok_bind]
  rw [List.length_append, List.length_singleton, ← Nat.add_assoc]
  rfl

def twice : Message where
  first := ascii "GET / HTTP/1.1"
  method := ascii "GET"
  address := ascii "/"
  after := ascii " HTTP/1.1"
  fields :=
    [⟨ascii "X", ascii "1", by decide, by decide +kernel, by decide +kernel⟩,
      ⟨ascii "Host", ascii "a", by decide, by decide +kernel, by decide +kernel⟩,
      ⟨ascii "X", ascii "2", by decide, by decide +kernel, by decide +kernel⟩]
  body := []
  clean := by decide
  words := by decide
  known := .inl rfl
  http := by decide
  sized := by
    rw [Sized]
    decide

theorem twice_roundTrip : ∃ pr,
    parsedRequestParse 0 (newRequest .null)
      (ascii "GET / HTTP/1.1\r\nX: 1\r\nHost: a\r\nX: 2\r\n\r\n") = .ok (0, pr) ∧
    parsedRequestUnparseHeaders pr (List.replicate 20 1) 0 20 =
      .ok (0, ascii "Host: a\r\nX: 2\r\n\r\n" ++ [0, 1, 1]) := by
  have absent : memmem (unlayered twice.address) (ascii "://") = none := by decide
  have valid : Valid 0 twice.parts twice.names := twice.valid_get rfl
    (fun rest found => absurd (absent.symm.trans found) (by simp)) fun _ => by decide
  obtain ⟨pr, accepted, length, printed⟩ := headers_roundTrip twice 0 .null valid
  have isText : headerText twice.kept = ascii "Host: a\r\nX: 2\r\n\r\n" := by decide
  rw [isText] at length printed
  refine ⟨pr, accepted, (printed (List.replicate 20 1) 0 20 ?_ (by decide)).trans rfl⟩
  rw [length]
  decide

end ProxyServer.ProxyParse
