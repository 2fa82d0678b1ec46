import Mathlib.Tactic.Ring
import ProxyServer.Decimal
import ProxyServer.Lib.Json
import ProxyServer.Logger.Rotation
import ProxyServer.ProxyParse.Parse

namespace ProxyServer
open Lib Json ProxyParse

/-- What the C library makes of the time and of the number of milliseconds that have passed. -/
structure ClockTexts where
  squidTime : Bytes
  elapsed : Bytes
  elapsedMs : Bytes
  isoTime : Bytes
  clfTime : Bytes
  oneLine : 10 ∉ squidTime ∧ 10 ∉ elapsed ∧ 10 ∉ clfTime
  number : IsNumber elapsedMs
  iso : Clean isoTime ∧ ∀ c ∈ isoTime, c < 128

structure AccessCall where
  clientIp : Option Bytes
  statusCode : Int
  responseSize : Nat
  method : Option Bytes
  url : Option Bytes
  contentType : Option Bytes
  traceId : Option Bytes

def orDash (s : Option Bytes) : Bytes := s.getD (ascii "-")

def accessLine (format : LogFormat) (clock : ClockTexts) (call : AccessCall) : Bytes :=
  match format with
  | .squid =>
      clock.squidTime ++ (ascii " " ++ (clock.elapsed ++ (ascii " " ++ (orDash call.clientIp ++
        (ascii " " ++ ((if call.statusCode ≥ 400 then ascii "ERR" else ascii "TCP_MISS") ++
        (ascii "/" ++ (ascii (toString call.statusCode) ++ (ascii " " ++
        (ascii (toString call.responseSize) ++ (ascii " " ++ (orDash call.method ++ (ascii " " ++
        (orDash call.url ++ (ascii " - DIRECT/- " ++ (orDash call.contentType ++ (ascii " [" ++
        (orDash call.traceId ++ ascii "]"))))))))))))))))))
  | .json =>
      ascii "\x7b\"type\":\"access\",\"timestamp\":\"" ++ (clock.isoTime ++
        (ascii "\",\"client_ip\":\"" ++ (orDash call.clientIp ++ (ascii "\",\"status\":" ++
        (ascii (toString call.statusCode) ++ (ascii ",\"size\":" ++
        (ascii (toString call.responseSize) ++ (ascii ",\"method\":\"" ++ (orDash call.method ++
        (ascii "\",\"url\":\"" ++ (orDash call.url ++ (ascii "\",\"elapsed_ms\":" ++
        (clock.elapsedMs ++ (ascii ",\"content_type\":\"" ++ (orDash call.contentType ++
        (ascii "\",\"trace_id\":\"" ++ (orDash call.traceId ++ ascii "\"\x7d")))))))))))))))))
  | _ =>
      orDash call.clientIp ++ (ascii " - - [" ++ (clock.clfTime ++ (ascii "] \"" ++
        (orDash call.method ++ (ascii " " ++ (orDash call.url ++ (ascii " HTTP/1.1\" " ++
        (ascii (toString call.statusCode) ++ (ascii " " ++ (ascii (toString call.responseSize) ++
        (ascii " \"-\" \"-\" [" ++ (orDash call.traceId ++ ascii "]"))))))))))))

def logEntry (format : LogFormat) (clock : ClockTexts) (call : AccessCall) : Bytes :=
  (accessLine format clock call ++ [10]).take 4095

def Logger.accessLog (l : Logger) (calls : RotateCalls) (clock : ClockTexts) (call : AccessCall) :
    Logger :=
  let l := l.rotateLogIfNeeded calls
  let entry := logEntry l.config.format clock call
  { l with
    stdout := if l.config.useStdout then l.stdout ++ entry else l.stdout
    files :=
      if l.gLogFp then
        Function.update l.files l.config.logFile (some (l.content ++ entry))
      else l.files }

/-- The call that `THREAD_ROUTINE` makes for a request that it could parse; `generated` is the trace
id that it makes up. -/
def requestCall (clientIp generated : Bytes) (statusCode : Int) (responseSize : Nat)
    (pr : ParsedRequest) : AccessCall where
  clientIp := some clientIp
  statusCode := statusCode
  responseSize := responseSize
  method := some ((pr.textAt pr.method).toOption.getD (ascii "UNKNOWN"))
  url := some (pr.path.getD (ascii "UNKNOWN"))
  contentType := some (ascii "text/html")
  traceId :=
    match (parsedHeaderGet pr (ascii "X-Trace-Id")).bind (pr.headers[·]?) with
    | some header => some (header.value.take 63)
    | none => some (generated.take 63)

def OneRecord (record : Bytes) : Prop := ∃ line, record = line ++ [10] ∧ 10 ∉ line

def Decodes (call : AccessCall) (record : Bytes) : Prop :=
  ∃ members, IsObject record members ∧
    members.lookup (ascii "client_ip") = some (.string (orDash call.clientIp)) ∧
    (∃ digits, members.lookup (ascii "status") = some (.number digits) ∧
      numberOf digits = call.statusCode) ∧
    members.lookup (ascii "method") = some (.string (orDash call.method)) ∧
    members.lookup (ascii "url") = some (.string (orDash call.url)) ∧
    members.lookup (ascii "content_type") = some (.string (orDash call.contentType)) ∧
    members.lookup (ascii "trace_id") = some (.string (orDash call.traceId))

structure FaithfulRecord (format : LogFormat) (call : AccessCall) (record : Bytes) : Prop where
  one : OneRecord record
  decodes : format = .json → Decodes call record

def AccessCall.shown (call : AccessCall) : LogFormat → List Bytes
  | .squid | .json =>
      [orDash call.clientIp, orDash call.method, orDash call.url, orDash call.contentType,
        orDash call.traceId]
  | .plain | .clf => [orDash call.clientIp, orDash call.method, orDash call.url, orDash call.traceId]

/-- In JSON a string has to be UTF-8 without quotes, backslashes and control characters, in the
other formats it only has to be without newlines. -/
def Legible (format : LogFormat) (s : Bytes) : Prop :=
  match format with
  | .json => Clean s ∧ Utf8 s
  | _ => 10 ∉ s

def lineLength (format : LogFormat) (clock : ClockTexts) (call : AccessCall) : Nat :=
  ((call.shown format).map List.length).sum + (ascii (toString call.statusCode)).length +
    (ascii (toString call.responseSize)).length +
    match format with
    | .squid => clock.squidTime.length + clock.elapsed.length +
        (if call.statusCode ≥ 400 then 3 else 8) + 22
    | .json => clock.isoTime.length + clock.elapsedMs.length + 132
    | _ => clock.clfTime.length + 33

theorem length_accessLine (format : LogFormat) (clock : ClockTexts) (call : AccessCall) :
    (accessLine format clock call).length = lineLength format clock call := by
  have verdict : (if call.statusCode ≥ 400 then ascii "ERR" else ascii "TCP_MISS").length =
      if call.statusCode ≥ 400 then 3 else 8 := by
    split <;> rfl
  generalize isStatus : ascii (toString call.statusCode) = status
  generalize isSize : ascii (toString call.responseSize) = size
  cases format with
  | squid =>
      have blank : (ascii " ").length = 1 := rfl
      have slash : (ascii "/").length = 1 := rfl
      have direct : (ascii " - DIRECT/- ").length = 12 := rfl
      have opens : (ascii " [").length = 2 := rfl
      have closes : (ascii "]").length = 1 := rfl
      simp only [accessLine, lineLength, AccessCall.shown, isStatus, isSize, verdict,
        List.length_append, List.map_cons, List.map_nil, List.sum_cons, List.sum_nil, blank, slash,
        direct, opens, closes]
      ring
  | json =>
      have kind : (ascii "\x7b\"type\":\"access\",\"timestamp\":\"").length = 30 := rfl
      have ip : (ascii "\",\"client_ip\":\"").length = 15 := rfl
      have status : (ascii "\",\"status\":").length = 11 := rfl
      have size : (ascii ",\"size\":").length = 8 := rfl
      have method : (ascii ",\"method\":\"").length = 11 := rfl
      have url : (ascii "\",\"url\":\"").length = 9 := rfl
      have elapsed : (ascii "\",\"elapsed_ms\":").length = 15 := rfl
      have type : (ascii ",\"content_type\":\"").length = 17 := rfl
      have trace : (ascii "\",\"trace_id\":\"").length = 14 := rfl
      have closes : (ascii "\"\x7d").length = 2 := rfl
      simp only [accessLine, lineLength, AccessCall.shown, isStatus, isSize, List.length_append,
        List.map_cons, List.map_nil, List.sum_cons, List.sum_nil, kind, ip, status, size, method,
        url, elapsed, type, trace, closes]
      ring
  | plain | clf =>
      have opens : (ascii " - - [").length = 6 := rfl
      have quote : (ascii "] \"").length = 3 := rfl
      have blank : (ascii " ").length = 1 := rfl
      have version : (ascii " HTTP/1.1\" ").length = 11 := rfl
      have dashes : (ascii " \"-\" \"-\" [").length = 10 := rfl
      have closes : (ascii "]").length = 1 := rfl
      simp only [accessLine, lineLength, AccessCall.shown, isStatus, isSize, List.length_append,
        List.map_cons, List.map_nil, List.sum_cons, List.sum_nil, opens, quote, blank, version,
        dashes, closes]
      ring

theorem isNumber_printed (n : Nat) : IsNumber (printed n) := by
  obtain ⟨digits, nonempty, -⟩ := printed_digits n
  exact ⟨[], printed n, [], [], by simp, Or.inl rfl, ⟨⟨nonempty, digits⟩, printed_leading⟩,
    Or.inl rfl, Or.inl rfl⟩

theorem isNumber_toString (n : Int) :
    IsNumber (ascii (toString n)) ∧ numberOf (ascii (toString n)) = n := by
  cases n with
  | ofNat n =>
      obtain ⟨digits, -, value⟩ := printed_digits n
      have shown : ascii (toString (Int.ofNat n)) = printed n := ascii_toString_int n
      rw [shown, numberOf_digits digits, value]
      exact ⟨isNumber_printed n, rfl⟩
  | negSucc n =>
      obtain ⟨digits, nonempty, value⟩ := printed_digits (n + 1)
      rw [ascii_toString_neg, (numberOf_sign digits).1, value]
      exact ⟨⟨[45], printed (n + 1), [], [], by simp, Or.inr rfl,
        ⟨⟨nonempty, digits⟩, printed_leading⟩, Or.inl rfl, Or.inl rfl⟩, rfl⟩

theorem newline_notMem_number {n : Bytes} (number : IsNumber n) : 10 ∉ n := fun inside =>
  absurd (List.all_eq_true.mp number.inNumber 10 inside) (by decide)

theorem newline_notMem_accessLine {format : LogFormat} (other : format ≠ .json)
    (clock : ClockTexts) (call : AccessCall) :
    10 ∉ accessLine format clock call ↔ ∀ s ∈ call.shown format, 10 ∉ s := by
  obtain ⟨squid, elapsed, clf⟩ := clock.oneLine
  have status := newline_notMem_number (isNumber_toString call.statusCode).1
  have size := newline_notMem_number (isNumber_printed call.responseSize)
  rw [← ascii_toString] at size
  have verdict : 10 ∉ (if call.statusCode ≥ 400 then ascii "ERR" else ascii "TCP_MISS") := by
    split <;> decide
  cases format with
  | json => exact absurd rfl other
  | squid =>
      have blank : 10 ∉ ascii " " := by decide
      have slash : 10 ∉ ascii "/" := by decide
      have direct : 10 ∉ ascii " - DIRECT/- " := by decide
      have opens : 10 ∉ ascii " [" := by decide
      have closes : 10 ∉ ascii "]" := by decide
      simp only [accessLine, AccessCall.shown, List.mem_append, List.forall_mem_cons, squid,
        elapsed, status, size, verdict, blank, slash, direct, opens, closes]
      simp
  | plain | clf =>
      have opens : 10 ∉ ascii " - - [" := by decide
      have quote : 10 ∉ ascii "] \"" := by decide
      have blank : 10 ∉ ascii " " := by decide
      have version : 10 ∉ ascii " HTTP/1.1\" " := by decide
      have dashes : 10 ∉ ascii " \"-\" \"-\" [" := by decide
      have closes : 10 ∉ ascii "]" := by decide
      simp only [accessLine, AccessCall.shown, List.mem_append, List.forall_mem_cons, clf, status,
        size, opens, quote, blank, version, dashes, closes]
      simp

theorem idxOf_append {l : Bytes} (clean : 10 ∉ l) (rest : Bytes) :
    (l ++ 10 :: rest).idxOf 10 = l.length := by
  rw [List.idxOf_append_of_notMem clean, List.idxOf_cons_self, Nat.add_zero]

theorem oneRecord_take (line : Bytes) :
    OneRecord ((line ++ [10]).take 4095) ↔
      10 ∉ line ∧ line.length ≤ 4094 ∨ line.length > 4094 ∧ line.idxOf 10 = 4094 := by
  by_cases fits : line.length ≤ 4094
  · rw [List.take_of_length_le (by simp; omega)]
    constructor
    · rintro ⟨l, same, clean⟩
      obtain ⟨rfl, -⟩ := List.append_inj' same rfl
      exact Or.inl ⟨clean, fits⟩
    · rintro (⟨clean, -⟩ | ⟨long, -⟩)
      · exact ⟨line, rfl, clean⟩
      · omega
  · rw [List.take_append_of_le_length (by omega)]
    constructor
    · rintro ⟨l, cut, clean⟩
      have length := congrArg List.length cut
      rw [List.length_take_of_le (by omega), List.length_append, List.length_singleton] at length
      have whole := List.take_append_drop 4095 line
      rw [cut, List.append_assoc, List.singleton_append] at whole
      refine Or.inr ⟨by omega, ?_⟩
      rw [← whole, idxOf_append clean]
      omega
    · rintro (⟨-, short⟩ | ⟨-, first⟩)
      · exact absurd short fits
      · have inside : 10 ∈ line := List.idxOf_lt_length_iff.mp (by omega)
        obtain ⟨l, rest, rfl, clean⟩ := List.eq_append_cons_of_mem inside
        rw [idxOf_append clean] at first
        refine ⟨l, ?_, clean⟩
        rw [List.append_cons, List.take_append_of_le_length (by simp; omega),
          List.take_of_length_le (by simp; omega)]

def jsonFields (clock : ClockTexts) (call : AccessCall) : List (Bytes × Shown) :=
  [(ascii "type", .text (ascii "access")), (ascii "timestamp", .text clock.isoTime),
    (ascii "client_ip", .text (orDash call.clientIp)),
    (ascii "status", .number (ascii (toString call.statusCode))),
    (ascii "size", .number (ascii (toString call.responseSize))),
    (ascii "method", .text (orDash call.method)), (ascii "url", .text (orDash call.url)),
    (ascii "elapsed_ms", .number clock.elapsedMs),
    (ascii "content_type", .text (orDash call.contentType)),
    (ascii "trace_id", .text (orDash call.traceId))]

theorem accessLine_json (clock : ClockTexts) (call : AccessCall) :
    accessLine .json clock call = 123 :: fieldsText (jsonFields clock call) [] := by
  have kind : ascii "\x7b\"type\":\"access\",\"timestamp\":\"" =
      123 :: 34 :: (ascii "type" ++ 34 :: 58 :: 34 :: (ascii "access" ++
        34 :: 44 :: 34 :: (ascii "timestamp" ++ [34, 58, 34]))) := by decide
  have ip : ascii "\",\"client_ip\":\"" = 34 :: 44 :: 34 :: (ascii "client_ip" ++ [34, 58, 34]) := by
    decide
  have status : ascii "\",\"status\":" = 34 :: 44 :: 34 :: (ascii "status" ++ [34, 58]) := by decide
  have size : ascii ",\"size\":" = 44 :: 34 :: (ascii "size" ++ [34, 58]) := by decide
  have method : ascii ",\"method\":\"" = 44 :: 34 :: (ascii "method" ++ [34, 58, 34]) := by decide
  have url : ascii "\",\"url\":\"" = 34 :: 44 :: 34 :: (ascii "url" ++ [34, 58, 34]) := by decide
  have elapsed : ascii "\",\"elapsed_ms\":" = 34 :: 44 :: 34 :: (ascii "elapsed_ms" ++ [34, 58]) := by
    decide
  have type : ascii ",\"content_type\":\"" = 44 :: 34 :: (ascii "content_type" ++ [34, 58, 34]) := by
    decide
  have trace : ascii "\",\"trace_id\":\"" = 34 :: 44 :: 34 :: (ascii "trace_id" ++ [34, 58, 34]) := by
    decide
  have closes : ascii "\"\x7d" = [34, 125] := by decide
  simp only [accessLine, jsonFields, fieldsText, fieldText, Shown.bytes, kind, ip, status, size,
    method, url, elapsed, type, trace, closes, List.cons_append, List.append_assoc, List.nil_append]

theorem jsonFields_names (clock : ClockTexts) (call : AccessCall) :
    Names (jsonFields clock call) := by
  have names : (jsonFields clock call).map (·.1) =
      [ascii "type", ascii "timestamp", ascii "client_ip", ascii "status", ascii "size",
        ascii "method", ascii "url", ascii "elapsed_ms", ascii "content_type", ascii "trace_id"] :=
    rfl
  have listed : ∀ name ∈ (jsonFields clock call).map (·.1), Clean name ∧ ∀ c ∈ name, c < 128 := by
    rw [names]
    unfold Clean
    decide
  refine ⟨by simp [jsonFields], ?_, ?_, ?_⟩
  · exact fun field member => (listed field.1 (List.mem_map_of_mem member)).1
  · exact fun field member => utf8_ascii (listed field.1 (List.mem_map_of_mem member)).2
  · rw [names]
    decide

theorem jsonFields_plain {clock : ClockTexts} {call : AccessCall} :
    (∀ field ∈ jsonFields clock call, field.2.Plain ∧ Utf8 field.2.contents) ↔
      ∀ s ∈ call.shown .json, Legible .json s := by
  have number {n : Bytes} (number : IsNumber n) :
      (Shown.number n).Plain ∧ Utf8 (Shown.number n).contents := ⟨number, number.utf8⟩
  have kind : (Shown.text (ascii "access")).Plain ∧ Utf8 (Shown.text (ascii "access")).contents := by
    refine ⟨?_, utf8_ascii (by decide)⟩
    unfold Shown.Plain Clean
    decide
  have timestamp : (Shown.text clock.isoTime).Plain ∧ Utf8 (Shown.text clock.isoTime).contents :=
    ⟨clock.iso.1, utf8_ascii clock.iso.2⟩
  have status := number (isNumber_toString call.statusCode).1
  have size := number (isNumber_printed call.responseSize)
  rw [← ascii_toString] at size
  have elapsed := number clock.number
  simp only [jsonFields, AccessCall.shown, List.forall_mem_cons, kind, timestamp, status, size,
    elapsed, true_and, List.not_mem_nil, false_implies, implies_true, and_true]
  rfl

theorem Decodes.kept {clock : ClockTexts} {call : AccessCall} {record : Bytes}
    (decodes : Decodes call record) :
    ∃ members, IsObject record members ∧ Kept (jsonFields clock call) members := by
  obtain ⟨members, object, ip, -, method, url, type, trace⟩ := decodes
  refine ⟨members, object, ?_⟩
  have kind : (Shown.text (ascii "access")).Plain := by
    unfold Shown.Plain Clean
    decide
  have size := isNumber_printed call.responseSize
  rw [← ascii_toString] at size
  simp only [Kept, jsonFields, List.forall_mem_cons]
  exact ⟨Or.inl kind, Or.inl clock.iso.1, Or.inr ⟨_, rfl, ip⟩,
    Or.inl (isNumber_toString call.statusCode).1, Or.inl size, Or.inr ⟨_, rfl, method⟩,
    Or.inr ⟨_, rfl, url⟩, Or.inl clock.number, Or.inr ⟨_, rfl, type⟩, Or.inr ⟨_, rfl, trace⟩,
    by simp⟩

theorem decodes_fields {clock : ClockTexts} {call : AccessCall}
    (plain : ∀ field ∈ jsonFields clock call, field.2.Plain ∧ Utf8 field.2.contents) :
    Decodes call (123 :: fieldsText (jsonFields clock call) [10]) := by
  have newline : Utf8 [10] := utf8_ascii (by decide)
  exact ⟨_, isObject_fields (jsonFields_names clock call) plain rfl newline, rfl,
    ⟨_, rfl, (isNumber_toString call.statusCode).2⟩, rfl, rfl, rfl, rfl⟩

theorem faithful_json (clock : ClockTexts) (call : AccessCall) :
    FaithfulRecord .json call (logEntry .json clock call) ↔
      (∀ s ∈ call.shown .json, Legible .json s) ∧
        (accessLine .json clock call).length ≤ 4094 := by
  have line (rest : Bytes) : 123 :: fieldsText (jsonFields clock call) rest =
      accessLine .json clock call ++ rest := by
    rw [accessLine_json, fieldsText_append, List.cons_append]
  have names := jsonFields_names clock call
  rw [logEntry, ← line, ← jsonFields_plain]
  constructor
  · rintro ⟨⟨before, ends, -⟩, decodes⟩
    obtain ⟨members, object, kept⟩ := (decodes rfl).kept
    obtain ⟨plain, rest, isRest, whole⟩ := object.of_prefix names kept (List.take_prefix _ _)
    refine ⟨plain, ?_⟩
    rcases List.prefix_cons_iff.mp isRest with rfl | ⟨more, rfl, none⟩
    · -- The brace would be the newline that ends the record.
      obtain ⟨front, isBrace⟩ := fieldsText_ends (jsonFields clock call)
      rw [whole, ← isBrace, ← List.cons_append] at ends
      exact absurd (List.append_inj' ends rfl).2 (by decide)
    · obtain rfl := List.prefix_nil.mp none
      have length := congrArg List.length whole
      rw [List.length_take, line, List.length_append, List.length_singleton] at length
      omega
  · rintro ⟨plain, fits⟩
    have clean := visible_fieldsText names.clean fun field member => (plain field member).1
    rw [List.take_of_length_le (by rw [line, List.length_append, List.length_singleton]; omega)]
    refine ⟨⟨accessLine .json clock call, line [10], ?_⟩, fun _ => decodes_fields plain⟩
    rw [accessLine_json, List.mem_cons, not_or]
    exact ⟨by decide, fun inside => absurd (clean 10 inside) (by decide)⟩

/-- Every string that the format shows is legible in it and the line fits, or, in another format
than JSON, the line is cut right after its first newline. -/
def Recordable (format : LogFormat) (clock : ClockTexts) (call : AccessCall) : Prop :=
  (∀ s ∈ call.shown format, Legible format s) ∧ lineLength format clock call ≤ 4094 ∨
    format ≠ .json ∧ 4094 < lineLength format clock call ∧
      (accessLine format clock call).idxOf 10 = 4094

theorem faithful_iff (format : LogFormat) (clock : ClockTexts) (call : AccessCall) :
    FaithfulRecord format call (logEntry format clock call) ↔ Recordable format clock call := by
  by_cases json : format = .json
  · subst json
    rw [faithful_json, Recordable, length_accessLine]
    simp
  · have legible : (∀ s ∈ call.shown format, Legible format s) ↔
        ∀ s ∈ call.shown format, 10 ∉ s := by
      cases format with
      | json => exact absurd rfl json
      | _ => rfl
    rw [Recordable, legible, ← newline_notMem_accessLine json clock, ← length_accessLine]
    have one := oneRecord_take (accessLine format clock call)
    constructor
    · rintro ⟨record, -⟩
      rcases one.mp record with fits | ⟨long, cut⟩
      · exact Or.inl fits
      · exact Or.inr ⟨json, long, cut⟩
    · rintro (fits | ⟨-, long, cut⟩)
      · exact ⟨one.mpr (Or.inl fits), fun isJson => absurd isJson json⟩
      · exact ⟨one.mpr (Or.inr ⟨long, cut⟩), fun isJson => absurd isJson json⟩

theorem accessLog_iff (l : Logger) (calls : RotateCalls) (clock : ClockTexts) (call : AccessCall)
    (isOpen : (l.rotateLogIfNeeded calls).gLogFp = true) :
    ∃ record, (l.accessLog calls clock call).files l.config.logFile =
        some ((l.rotateLogIfNeeded calls).content ++ record) ∧
      (FaithfulRecord l.config.format call record ↔ Recordable l.config.format clock call) := by
  refine ⟨logEntry l.config.format clock call, ?_, faithful_iff _ _ _⟩
  simp [Logger.accessLog, isOpen, l.rotateLogIfNeeded_config calls]

def epochClock : ClockTexts where
  squidTime := ascii "0.000"
  elapsed := ascii "     0"
  elapsedMs := ascii "0.50"
  isoTime := ascii "1970-01-01T00:00:00Z"
  clfTime := ascii "01/Jan/1970:00:00:00 +0000"
  oneLine := by decide
  number := ⟨[], ascii "0", ascii ".50", [], rfl, Or.inl rfl, ⟨⟨by decide, rfl⟩, fun _ => rfl⟩,
    Or.inr ⟨ascii "50", rfl, by decide, rfl⟩, Or.inl rfl⟩
  iso := by
    unfold Clean
    decide

def jsonLog : Logger :=
  ⟨⟨.json, ascii "proxy.log", true, false, 10⟩, true, fun _ => none, []⟩

def plainCall : AccessCall :=
  ⟨some (ascii "127.0.0.1"), 200, 0, some (ascii "GET"), some (ascii "/"),
    some (ascii "text/html"), some (ascii "1")⟩

theorem accessLog_iff_plain :
    ∃ record, (jsonLog.accessLog ⟨true, true, true⟩ epochClock plainCall).files (ascii "proxy.log") =
        some ((jsonLog.rotateLogIfNeeded ⟨true, true, true⟩).content ++ record) ∧
      (FaithfulRecord .json plainCall record ↔ Recordable .json epochClock plainCall) :=
  accessLog_iff jsonLog ⟨true, true, true⟩ epochClock plainCall rfl

def quoteRequest : Bytes := ascii "GET http://a.b/\" HTTP/1.1\r\nHost: a.b\r\n\r\n"

theorem quoteRequest_breaks :
    ∃ pr, parsedRequestParse 0 (parsedRequestCreate 0) quoteRequest = .ok (0, pr) ∧
      let call := requestCall (ascii "127.0.0.1") (ascii "1") 200 0 pr
      call.url = some (ascii "/\"") ∧
      ¬ FaithfulRecord .json call (logEntry .json epochClock call) := by
  have parsed : (parsedRequestParse 0 (parsedRequestCreate 0) quoteRequest).map
      (fun result => (result.1, result.2.path)) = .ok (0, some (ascii "/\"")) := by
    decide
  generalize parsedRequestParse 0 (parsedRequestCreate 0) quoteRequest = result at parsed ⊢
  cases result with
  | error fault => cases parsed
  | ok result =>
      obtain ⟨ret, pr⟩ := result
      obtain ⟨rfl, path⟩ := Prod.mk.inj (Except.ok.inj parsed)
      have url : (requestCall (ascii "127.0.0.1") (ascii "1") 200 0 pr).url =
          some (ascii "/\"") := by
        change pr.path = _ at path
        rw [requestCall, path]
        rfl
      refine ⟨pr, rfl, url, ?_⟩
      rw [faithful_iff]
      rintro (⟨legible, -⟩ | ⟨other, -⟩)
      · have clean := (legible (ascii "/\"") (by simp [AccessCall.shown, url, orDash])).1
        exact (clean 34 (by decide)).2.1 rfl
      · exact other rfl

end ProxyServer
