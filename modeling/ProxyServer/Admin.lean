import ProxyServer.Config.Model
import ProxyServer.Lib.Ownership
import ProxyServer.Metrics

namespace ProxyServer.Admin
open Lib Metrics Config

inductive Resource where
  | socket
  | response
  | metrics
  deriving DecidableEq

def scanWord (width : Nat) (s : Bytes) : Option (Bytes × Bytes) :=
  let s := s.dropWhile isspace
  let word := (s.takeWhile fun c => !isspace c).take width
  if word = [] then none else some (word, s.drop word.length)

/-- `sscanf(buf, "%15s %255s", method, path)`. -/
def scanRequest (buf : Bytes) : Option (Bytes × Bytes) := do
  let (method, rest) ← scanWord 15 (cstr buf)
  let (path, _) ← scanWord 255 rest
  return (method, path)

structure Calls where
  received : Option Bytes
  response : Bool
  metrics : Bool

structure Answer where
  sent : List Bytes
  touches : List (Touch Resource)

/-- `snprintf` into 8192 bytes, of which `send` takes what is before the terminator. -/
def printResponse (text : Bytes) : Bytes := cstr (text.take 8191)

def metricsHead : Bytes :=
  ascii "HTTP/1.1 200 OK\x0d\nContent-Type: text/plain\x0d\nConnection: close\x0d\n\x0d\n"

def noMetrics : Bytes :=
  ascii "HTTP/1.1 500 Internal Server Error\x0d\nConnection: close\x0d\n\x0d\n"

def health : Bytes :=
  ascii "HTTP/1.1 200 OK\x0d\nContent-Type: application/json\x0d\nConnection: close\x0d\n\x0d\n" ++
    ascii "\x7b\"status\": \"UP\"\x7d"

def notFound : Bytes := ascii "HTTP/1.1 404 Not Found\x0d\nConnection: close\x0d\n\x0d\n"

def statusStart : Bytes :=
  ascii "HTTP/1.1 200 OK\x0d\nContent-Type: text/html\x0d\nConnection: close\x0d\n\x0d\n" ++
    ascii "<html><head><title>Proxy Status</title></head>" ++
    ascii "<body style='font-family:sans-serif; padding:20px;'>" ++
    ascii "<h1>Proxy Server Status</h1><h2>Configuration</h2><ul><li>Port: "

def statusMetrics : Bytes :=
  ascii "</li></ul><h2>Live Metrics</h2><pre style='background:#f4f4f4; padding:10px;'>"

def statusPage (cfg : ProxyConfig) (metrics : Option Bytes) : Bytes :=
  statusStart ++ ascii (toString (cfg.int .port)) ++
    ascii "</li><li>Max Clients: " ++ ascii (toString (cfg.int .maxClients)) ++
    ascii "</li><li>Caching Enabled: " ++
    (if cfg.flag .enableCache then ascii "Yes" else ascii "No") ++ statusMetrics ++
    metrics.getD (ascii "Unavailable") ++ ascii "</pre></body></html>"

def respond (cfg : ProxyConfig) (m : ServerMetrics) (memory : Bool) (path : Bytes) :
    Bytes × List (Touch Resource) :=
  let text := metricsExportPrometheus m
  if path = ascii "/metrics" then
    if memory then
      (printResponse (metricsHead ++ text),
        [.acquire .metrics, .use .metrics, .use .response, .use .socket, .release .metrics])
    else (noMetrics, [.use .socket])
  else if path = ascii "/health" then
    (printResponse health, [.use .response, .use .socket])
  else if path = ascii "/status" then
    if memory then
      (printResponse (statusPage cfg (some text)),
        [.acquire .metrics, .use .metrics, .use .response, .release .metrics, .use .socket])
    else (printResponse (statusPage cfg none), [.use .response, .use .socket])
  else (notFound, [.use .socket])

def handleAdminRequest (cfg : ProxyConfig) (m : ServerMetrics) (calls : Calls) : Answer :=
  match calls.received.bind scanRequest with
  | none => ⟨[], [.use .socket, .release .socket]⟩
  | some (_, path) =>
      if !calls.response then ⟨[], [.use .socket, .release .socket]⟩
      else
        let (page, touches) := respond cfg m calls.metrics path
        ⟨[page], [.use .socket, .acquire .response] ++ touches ++
          [.release .response, .release .socket]⟩

variable {cfg : ProxyConfig} {m : ServerMetrics} {calls : Calls}

theorem cstr_sized {text : Bytes} (string : 0 ∉ text) (fits : text.length ≤ 8191) :
    printResponse text = text := by
  rw [printResponse, List.take_of_length_le fits, cstr_of_string string]

theorem zero_shown (n : Int) : 0 ∉ ascii (toString n) := by
  have digits : ∀ n, 0 ∉ printed n := fun n member => by
    have digit := isdigit_of_mem_printed member
    simp [isdigit] at digit
  rw [shown_int]
  split
  · simp [digits]
  · exact digits _

theorem zero_export (sized : m.Sized) : 0 ∉ metricsExportPrometheus m := by
  have marks : 0 ∉ ascii "# HELP " ∧ 0 ∉ ascii "# TYPE " := by decide
  rw [metricsExportPrometheus_eq sized]
  intro zero
  obtain ⟨s, member, inside⟩ := List.mem_flatMap.mp zero
  obtain ⟨row, listed, rfl⟩ := List.mem_map.mp member
  obtain ⟨-, plain, plain', plain''⟩ := metricTable_plain row listed
  have name : 0 ∉ row.2.1 := fun inside => absurd (plain 0 inside) (by decide)
  have help : 0 ∉ row.2.2 := fun inside => absurd (plain' 0 inside) (by decide)
  have kind : 0 ∉ row.1.kind := fun inside => absurd (plain'' 0 inside) (by decide)
  have value : 0 ∉ row.1.shown m := by
    cases row.1 with
    | counter c => exact fun inside => zero_shown (m.counter c) (by rwa [ascii_toString_int])
    | gauge g => exact zero_shown _
  simp [Sample.text, Sample.lines, name, help, kind, value, marks] at inside

theorem length_printed_int {n : Int} (small : -2 ^ 31 ≤ n ∧ n < 2 ^ 31) :
    (ascii (toString n)).length ≤ 11 := by
  have short : (printed n.natAbs).length ≤ 10 := length_printed_le (by omega)
  rw [shown_int]
  split
  · rw [List.length_cons]
    omega
  · omega

theorem statusPage_whole (sized : m.Sized)
    (ints : ∀ field, -2 ^ 31 ≤ cfg.int field ∧ cfg.int field < 2 ^ 31) {metrics : Option Bytes}
    (exported : ∀ text, metrics = some text → text = metricsExportPrometheus m) :
    printResponse (statusPage cfg metrics) = statusPage cfg metrics := by
  have shown : 0 ∉ metrics.getD (ascii "Unavailable") ∧
      (metrics.getD (ascii "Unavailable")).length ≤ 2047 := by
    cases metrics with
    | none => decide
    | some text =>
        obtain rfl := exported text rfl
        refine ⟨zero_export sized, ?_⟩
        rw [Option.getD_some, metricsExportPrometheus_eq sized]
        exact length_page sized
  have flag : 0 ∉ (if cfg.flag .enableCache then ascii "Yes" else ascii "No") ∧
      (if cfg.flag .enableCache then ascii "Yes" else ascii "No").length ≤ 3 := by
    cases cfg.flag .enableCache <;> decide
  have port := length_printed_int (ints .port)
  have clients := length_printed_int (ints .maxClients)
  have texts : ∀ text ∈ [statusStart, ascii "</li><li>Max Clients: ",
      ascii "</li><li>Caching Enabled: ", statusMetrics, ascii "</pre></body></html>"],
      0 ∉ text ∧ text.length ≤ 300 := by
    decide +kernel
  simp only [List.forall_mem_cons] at texts
  obtain ⟨start, mid, mid', live, stop, -⟩ := texts
  refine cstr_sized ?_ ?_
  · simp only [statusPage, List.mem_append, not_or]
    exact ⟨⟨⟨⟨⟨⟨⟨⟨start.1, zero_shown _⟩, mid.1⟩, zero_shown _⟩, mid'.1⟩, flag.1⟩, live.1⟩,
      shown.1⟩, stop.1⟩
  · simp only [statusPage, List.length_append]
    omega

theorem metrics_whole (sized : m.Sized) :
    printResponse (metricsHead ++ metricsExportPrometheus m) =
      metricsHead ++ metricsExportPrometheus m := by
  have head : 0 ∉ metricsHead ∧ metricsHead.length ≤ 100 := by decide
  have page := length_page sized
  refine cstr_sized ?_ ?_
  · rw [List.mem_append, not_or]
    exact ⟨head.1, zero_export sized⟩
  · rw [List.length_append, metricsExportPrometheus_eq sized]
    omega

theorem health_whole : printResponse health = health := by
  decide

theorem owns_respond (memory : Bool) (path : Bytes) :
    Owns {.socket, .response} (respond cfg m memory path).2 {.socket, .response} := by
  rw [respond]
  split_ifs <;> rfl

theorem respond_whole (sized : m.Sized)
    (ints : ∀ field, -2 ^ 31 ≤ cfg.int field ∧ cfg.int field < 2 ^ 31) (memory : Bool)
    (path : Bytes) : (respond cfg m memory path).1 ∈
      [metricsHead ++ metricsExportPrometheus m, noMetrics, health,
        statusPage cfg (some (metricsExportPrometheus m)), statusPage cfg none, notFound] := by
  have full := @statusPage_whole cfg m sized ints (some (metricsExportPrometheus m))
    fun text same => (Option.some.inj same).symm
  have bare := @statusPage_whole cfg m sized ints none fun text same => by cases same
  rw [respond]
  split_ifs <;> simp only [metrics_whole sized, health_whole, full, bare, List.mem_cons, true_or,
    or_true]

/-- Whatever comes in, the connection is closed once and nothing stays allocated, and what is sent
is one whole page. -/
theorem admin_answers (sized : m.Sized)
    (ints : ∀ field, -2 ^ 31 ≤ cfg.int field ∧ cfg.int field < 2 ^ 31) (calls : Calls) :
    Owns {.socket} (handleAdminRequest cfg m calls).touches ∅ ∧
      (handleAdminRequest cfg m calls).sent.length ≤ 1 ∧
      ∀ page ∈ (handleAdminRequest cfg m calls).sent,
        page ∈ [metricsHead ++ metricsExportPrometheus m, noMetrics, health,
          statusPage cfg (some (metricsExportPrometheus m)), statusPage cfg none, notFound] := by
  have refused : Owns {Resource.socket} [.use .socket, .release .socket] ∅ := rfl
  rw [handleAdminRequest]
  cases calls.received.bind scanRequest with
  | none => exact ⟨refused, by simp, by simp⟩
  | some request =>
      cases calls.response with
      | false => exact ⟨refused, by simp, by simp⟩
      | true =>
          have before : Owns {Resource.socket} [.use .socket, .acquire .response]
              {.socket, .response} := by
            rw [Owns]
            decide
          have after : Owns {Resource.socket, Resource.response}
              [.release .response, .release .socket] ∅ := by
            rw [Owns]
            decide
          refine ⟨(before.append (owns_respond calls.metrics request.2)).append after, le_rfl, ?_⟩
          intro page sent
          rw [List.mem_singleton.mp sent]
          exact respond_whole sized ints calls.metrics request.2

theorem admin_answers_health :
    let answer := handleAdminRequest .zeroed .metricsInit
      ⟨some (ascii "GET /health HTTP/1.1\r\n\r\n"), true, true⟩
    answer.sent = [health] ∧ Owns {.socket} answer.touches ∅ ∧ answer.sent.length ≤ 1 ∧
      ∀ page ∈ answer.sent,
        page ∈ [metricsHead ++ metricsExportPrometheus .metricsInit, noMetrics, health,
          statusPage .zeroed (some (metricsExportPrometheus .metricsInit)),
          statusPage .zeroed none, notFound] := by
  have zero : -2 ^ 31 ≤ (0 : Int) ∧ (0 : Int) < 2 ^ 31 := by decide
  exact ⟨by decide +kernel,
    admin_answers ⟨fun _ => Nat.two_pow_pos 64, fun _ => zero⟩ (fun _ => zero) _⟩

def IsWord (width : Nat) (word : Bytes) : Prop :=
  word ≠ [] ∧ word.length ≤ width ∧ ∀ c ∈ word, isspace c = false ∧ c ≠ 0

instance (width : Nat) (word : Bytes) : Decidable (IsWord width word) :=
  inferInstanceAs (Decidable (_ ∧ _ ∧ _))

theorem scanWord_word {width : Nat} {word : Bytes} (isWord : IsWord width word) (rest : Bytes) :
    scanWord width (word ++ 32 :: rest) = some (word, 32 :: rest) := by
  obtain ⟨nonempty, fits, solid⟩ := isWord
  have starts : (word ++ 32 :: rest).dropWhile isspace = word ++ 32 :: rest := by
    cases word with
    | nil => exact absurd rfl nonempty
    | cons c word => exact List.dropWhile_cons_of_neg (by simp [(solid c (by simp)).1])
  have inWord : ∀ c ∈ word, (!isspace c) = true := fun c inside => by simp [(solid c inside).1]
  have cut : (word ++ 32 :: rest).takeWhile (fun c => !isspace c) = word :=
    (Block.takeWhile_gap _ inWord _ (by simp [isspace])).1
  rw [scanWord, starts]
  simp only [cut, List.take_of_length_le fits, if_neg nonempty, List.drop_left]

theorem scanWord_blank (width : Nat) (rest : Bytes) :
    scanWord width (32 :: rest) = scanWord width rest := by
  rw [scanWord, scanWord, List.dropWhile_cons_of_pos (by decide)]

theorem scanRequest_words {method path : Bytes} (isMethod : IsWord 15 method)
    (isPath : IsWord 255 path) (rest : Bytes) :
    scanRequest (method ++ 32 :: (path ++ 32 :: rest)) = some (method, path) := by
  have string : ∀ width word, IsWord width word → 0 ∉ word := fun width word isWord zero =>
    (isWord.2.2 0 zero).2 rfl
  have text : cstr (method ++ 32 :: (path ++ 32 :: rest)) =
      method ++ 32 :: (path ++ 32 :: cstr rest) := by
    rw [cstr_append (string 15 method isMethod)]
    congr 1
    rw [show (32 :: (path ++ 32 :: rest) : Bytes) = (32 :: path ++ [32]) ++ rest by simp,
      cstr_append (by simp [string 255 path isPath])]
    simp
  rw [scanRequest, text, scanWord_word isMethod]
  simp only [Option.bind_eq_bind, Option.bind_some, scanWord_blank, scanWord_word isPath]
  rfl

theorem readSample_response (sized : m.Sized) {row : Metric × Bytes × Bytes}
    (listed : row ∈ metricTable) :
    readSample (metricsHead ++ metricsExportPrometheus m) row.2.1 = some (row.1.shown m) := by
  have head : metricsHead = [ascii "HTTP/1.1 200 OK\x0d", ascii "Content-Type: text/plain\x0d",
      ascii "Connection: close\x0d", [13]].flatMap (· ++ [10]) := by
    decide
  have others : ∀ line ∈ [ascii "HTTP/1.1 200 OK\x0d", ascii "Content-Type: text/plain\x0d",
      ascii "Connection: close\x0d", [13]], line.head? ≠ some 112 := by
    decide
  rw [head]
  refine readSample_export sized listed (by decide) fun line inside begins => ?_
  obtain ⟨tail, same⟩ := List.head?_eq_some_iff.mp (metricTable_plain row listed).1
  obtain ⟨rest, rfl⟩ := begins
  exact others _ inside (by rw [same]; rfl)

/-- However the threads take turns: who asks for the metrics with any method is told how often and
by how much each counter was raised, as far as 64 bits go, and every gauge. -/
theorem admin_scrape {ι : Type} [Fintype ι] [DecidableEq ι] {program : ι → List Call}
    {schedule : List ι} {t : Threads ι Call ServerMetrics}
    (reached : run (Threads.step exec) (Threads.start .metricsInit program) schedule = some t)
    {method : Bytes} (isMethod : IsWord 15 method) (rest : Bytes) :
    ∃ page, (handleAdminRequest cfg t.shared
        ⟨some (method ++ 32 :: (ascii "/metrics" ++ 32 :: rest)), true, true⟩).sent = [page] ∧
      (∀ c name help, (.counter c, name, help) ∈ metricTable →
        readSample page name = some (printed (raised t c % 2 ^ 64))) ∧
      ∀ g name help, (.gauge g, name, help) ∈ metricTable →
        readSample page name = some (ascii (toString (t.shared.gauge g))) := by
  obtain ⟨sized, counts⟩ := run_counter reached
  refine ⟨metricsHead ++ metricsExportPrometheus t.shared, ?_, fun c name help listed => ?_,
    fun g name help listed => readSample_response sized listed⟩
  · have path : IsWord 255 (ascii "/metrics") := by
      decide
    rw [handleAdminRequest, Option.bind_some, scanRequest_words isMethod path]
    simp only [Bool.not_true, if_neg Bool.false_ne_true, respond, if_true, metrics_whole sized]
  · rw [← counts c]
    exact readSample_response sized listed

theorem admin_scrape_two : ∃ t,
    run (Threads.step exec)
      (Threads.start .metricsInit fun i : Fin 2 =>
        if i = 0 then [.incrementRequests, .addBytes 7] else [.incrementHttp2Requests])
      [0, 1, 0] = some t ∧
    ∃ page, (handleAdminRequest .zeroed t.shared
        ⟨some (ascii "GET /metrics HTTP/1.1"), true, true⟩).sent = [page] ∧
      readSample page (ascii "proxy_requests_total") =
        some (printed (raised t .requestsTotal % 2 ^ 64)) := by
  obtain ⟨t, reached⟩ := Option.isSome_iff_exists.mp <|
    show (run (Threads.step exec)
      (Threads.start .metricsInit fun i : Fin 2 =>
        if i = 0 then [.incrementRequests, .addBytes 7] else [.incrementHttp2Requests])
      [0, 1, 0]).isSome from rfl
  obtain ⟨page, sent, counters, -⟩ := @admin_scrape .zeroed _ _ _ _ _ _ reached (ascii "GET")
    (by decide) (ascii "HTTP/1.1")
  exact ⟨t, reached, page, sent, counters _ _ _ List.mem_cons_self⟩

end ProxyServer.Admin
