import ProxyServer.Logger.Retention

namespace ProxyServer
open Lib Json

namespace LogCall

structure Sited (call : LogCall) : Prop where
  site : Clean call.site ∧ ∀ c ∈ call.site, c < 128
  func : Clean call.func ∧ ∀ c ∈ call.func, c < 128
  time : Clean call.time ∧ ∀ c ∈ call.time, c < 128
  short : call.site.length + call.func.length + call.time.length ≤ 1024

def Decodes (call : LogCall) (record : Bytes) : Prop :=
  ∃ members, IsObject record members ∧
    members.lookup (ascii "level") = some (.string call.level.levelToString) ∧
    members.lookup (ascii "file") = some (.string call.site) ∧
    members.lookup (ascii "func") = some (.string call.func) ∧
    members.lookup (ascii "msg") = some (.string call.buffer)

structure Faithful (format : LogFormat) (call : LogCall) (record : Bytes) : Prop where
  one : OneRecord record
  decodes : format = .json → call.Decodes record

variable {call : LogCall} {format : LogFormat}

theorem levelToString_clean (level : LogLevelEnum) :
    Clean level.levelToString ∧ ∀ c ∈ level.levelToString, c < 128 := by
  unfold Clean
  cases level <;> decide

theorem length_levelToString (level : LogLevelEnum) : level.levelToString.length ≤ 8 := by
  cases level <;> decide

theorem length_buffer (call : LogCall) : call.buffer.length ≤ 2047 := List.length_take_le _ _

theorem Sited.entry (sited : call.Sited) (format : LogFormat) :
    call.entry format = call.text format ++ [10] := by
  have short := sited.short
  have level := length_levelToString call.level
  have buffer := call.length_buffer
  rw [LogCall.entry, List.take_of_length_le]
  rw [List.length_append, List.length_singleton]
  cases format with
  | json =>
      have timestamp : (ascii "\x7b\"timestamp\":\"").length = 14 := rfl
      have levelName : (ascii "\",\"level\":\"").length = 11 := rfl
      have fileName : (ascii "\",\"file\":\"").length = 10 := rfl
      have funcName : (ascii "\",\"func\":\"").length = 10 := rfl
      have msgName : (ascii "\",\"msg\":\"").length = 9 := rfl
      have closes : (ascii "\"\x7d").length = 2 := rfl
      simp only [text, List.length_append, timestamp, levelName, fileName, funcName, msgName, closes]
      omega
  | _ =>
      have opens : (ascii "[").length = 1 := rfl
      have between : (ascii "] [").length = 3 := rfl
      have closes : (ascii "] ").length = 2 := rfl
      simp only [text, List.length_append, opens, between, closes]
      omega

theorem Clean.newline {s : Bytes} (clean : Clean s) : 10 ∉ s := fun inside =>
  absurd (clean 10 inside).1 (by decide)

theorem Sited.newline (sited : call.Sited) (other : format ≠ .json) :
    10 ∉ call.text format ↔ 10 ∉ call.buffer := by
  have time := Clean.newline sited.time.1
  have level := Clean.newline (levelToString_clean call.level).1
  have site := Clean.newline sited.site.1
  have opens : 10 ∉ ascii "[" := by decide
  have between : 10 ∉ ascii "] [" := by decide
  have closes : 10 ∉ ascii "] " := by decide
  cases format with
  | json => exact absurd rfl other
  | _ => simp [text, time, level, site, opens, between, closes]

theorem oneRecord_iff (line : Bytes) : OneRecord (line ++ [10]) ↔ 10 ∉ line := by
  constructor
  · rintro ⟨l, same, clean⟩
    obtain ⟨rfl, -⟩ := List.append_inj' same rfl
    exact clean
  · exact fun clean => ⟨line, rfl, clean⟩

def fields (call : LogCall) : List (Bytes × Shown) :=
  [(ascii "timestamp", .text call.time), (ascii "level", .text call.level.levelToString),
    (ascii "file", .text call.site), (ascii "func", .text call.func),
    (ascii "msg", .text call.buffer)]

theorem text_json (call : LogCall) : call.text .json = 123 :: fieldsText call.fields [] := by
  have timestamp : ascii "\x7b\"timestamp\":\"" =
      123 :: 34 :: (ascii "timestamp" ++ [34, 58, 34]) := by decide
  have level : ascii "\",\"level\":\"" = 34 :: 44 :: 34 :: (ascii "level" ++ [34, 58, 34]) := by decide
  have file : ascii "\",\"file\":\"" = 34 :: 44 :: 34 :: (ascii "file" ++ [34, 58, 34]) := by decide
  have func : ascii "\",\"func\":\"" = 34 :: 44 :: 34 :: (ascii "func" ++ [34, 58, 34]) := by decide
  have msg : ascii "\",\"msg\":\"" = 34 :: 44 :: 34 :: (ascii "msg" ++ [34, 58, 34]) := by decide
  have closes : ascii "\"\x7d" = [34, 125] := by decide
  simp only [text, fields, fieldsText, fieldText, Shown.bytes, timestamp, level, file, func, msg,
    closes, List.cons_append, List.append_assoc, List.nil_append]

theorem fields_names (call : LogCall) : Names call.fields := by
  have names : call.fields.map (·.1) =
      [ascii "timestamp", ascii "level", ascii "file", ascii "func", ascii "msg"] := rfl
  have listed : ∀ name ∈ call.fields.map (·.1), Clean name ∧ ∀ c ∈ name, c < 128 := by
    rw [names]
    unfold Clean
    decide
  refine ⟨by simp [fields], ?_, ?_, ?_⟩
  · exact fun field member => (listed field.1 (List.mem_map_of_mem member)).1
  · exact fun field member => utf8_ascii (listed field.1 (List.mem_map_of_mem member)).2
  · rw [names]
    decide

theorem Sited.fields_plain (sited : call.Sited) :
    (∀ field ∈ call.fields, field.2.Plain ∧ Utf8 field.2.contents) ↔
      Clean call.buffer ∧ Utf8 call.buffer := by
  have plain {s : Bytes} (given : Clean s ∧ ∀ c ∈ s, c < 128) :
      (Shown.text s).Plain ∧ Utf8 (Shown.text s).contents := ⟨given.1, utf8_ascii given.2⟩
  simp only [fields, List.forall_mem_cons, plain sited.time, plain sited.site, plain sited.func,
    plain (levelToString_clean call.level), true_and, List.not_mem_nil, false_implies,
    implies_true, and_true]
  rfl

theorem Sited.faithful_json (sited : call.Sited) :
    Faithful .json call (call.entry .json) ↔ Clean call.buffer ∧ Utf8 call.buffer := by
  have names := call.fields_names
  have record : call.entry .json = 123 :: fieldsText call.fields [10] := by
    rw [sited.entry, text_json, List.cons_append, ← fieldsText_append]
  rw [record, ← sited.fields_plain]
  constructor
  · rintro ⟨-, decodes⟩
    obtain ⟨members, object, level, file, func, msg⟩ := decodes rfl
    have kept : Kept call.fields members := by
      simp only [Kept, fields, List.forall_mem_cons]
      exact ⟨Or.inl sited.time.1, Or.inr ⟨_, rfl, level⟩, Or.inr ⟨_, rfl, file⟩,
        Or.inr ⟨_, rfl, func⟩, Or.inr ⟨_, rfl, msg⟩, by simp⟩
    exact (object.of_prefix names kept List.prefix_rfl).1
  · intro plain
    have clean := visible_fieldsText names.clean fun field member => (plain field member).1
    refine ⟨?_, fun _ => ⟨_, isObject_fields names plain rfl (utf8_ascii (by decide)),
      rfl, rfl, rfl, rfl⟩⟩
    rw [← record, sited.entry, oneRecord_iff, text_json, List.mem_cons, not_or]
    exact ⟨by decide, fun inside => absurd (clean 10 inside) (by decide)⟩

theorem Sited.faithful_iff (sited : call.Sited) (format : LogFormat) :
    Faithful format call (call.entry format) ↔ Legible format call.buffer := by
  by_cases json : format = .json
  · subst json
    exact sited.faithful_json
  · have legible : Legible format call.buffer ↔ 10 ∉ call.buffer := by
      cases format with
      | json => exact absurd rfl json
      | _ => rfl
    rw [legible, ← sited.newline json, ← oneRecord_iff, ← sited.entry]
    exact ⟨fun faithful => faithful.one, fun one => ⟨one, fun isJson => absurd isJson json⟩⟩

end LogCall

def quoteMessage : LogCall where
  level := .error
  file := ascii "src/tls_tunnel.c"
  line := 230
  func := ascii "HandleConnect"
  message := ascii "HandleConnect: Failed to resolve a\": Name or service not known"
  time := ascii "1970-01-01 00:00:00"

theorem quoteMessage_sited : quoteMessage.Sited where
  site := by
    unfold Clean
    decide
  func := by
    unfold Clean
    decide
  time := by
    unfold Clean
    decide
  short := by decide

def jsonLogging : Logging := ⟨jsonLog, .info, false, [], []⟩

end ProxyServer
