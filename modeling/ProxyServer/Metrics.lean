import Mathlib.Algebra.BigOperators.Group.List.Basic
import Mathlib.Algebra.BigOperators.Ring.Finset
import ProxyServer.Decimal
import ProxyServer.Lib.Block
import ProxyServer.Lib.Interleave
import ProxyServer.Lib.Prefix

/-!
# Metrics

The counters and gauges, changed by all threads under one lock, and the text that a scraper is
given. A counter is a `uint64_t`, a gauge an `int32_t`.
-/

namespace ProxyServer.Metrics
open Lib

inductive Counter where
  | requestsTotal
  | requestsSuccess
  | requestsError
  | cacheHits
  | cacheMisses
  | bytesTransferred
  | http2RequestsTotal
  | http2BytesTransferred
  | ipv6RequestsTotal
  | ipv6BytesTransferred
  deriving DecidableEq

inductive Gauge where
  | activeConnections
  | http2ActiveConnections
  | ipv6ActiveConnections
  deriving DecidableEq

structure ServerMetrics where
  counter : Counter → Nat
  gauge : Gauge → Int

namespace ServerMetrics

def metricsInit : ServerMetrics := ⟨fun _ => 0, fun _ => 0⟩

def add (m : ServerMetrics) (c : Counter) (n : Nat) : ServerMetrics :=
  { m with counter := Function.update m.counter c ((m.counter c + n) % 2 ^ 64) }

def set (m : ServerMetrics) (g : Gauge) (n : Int) : ServerMetrics :=
  { m with gauge := Function.update m.gauge g n }

def increment (m : ServerMetrics) (g : Gauge) : ServerMetrics := m.set g (toInt (m.gauge g + 1))

def decrement (m : ServerMetrics) (g : Gauge) : ServerMetrics :=
  if m.gauge g > 0 then m.set g (m.gauge g - 1) else m

variable (m : ServerMetrics) (bytes : Nat)

def incrementRequests : ServerMetrics := m.add .requestsTotal 1
def incrementSuccess : ServerMetrics := m.add .requestsSuccess 1
def incrementErrors : ServerMetrics := m.add .requestsError 1
def incrementCacheHits : ServerMetrics := m.add .cacheHits 1
def incrementCacheMisses : ServerMetrics := m.add .cacheMisses 1
def addBytes : ServerMetrics := m.add .bytesTransferred bytes
def setActiveConnections (count : Int) : ServerMetrics := m.set .activeConnections (toInt count)
def incrementActiveConnections : ServerMetrics := m.increment .activeConnections
def decrementActiveConnections : ServerMetrics := m.decrement .activeConnections
def incrementHttp2Requests : ServerMetrics :=
  (m.add .http2RequestsTotal 1).add .requestsTotal 1
def addHttp2Bytes : ServerMetrics :=
  (m.add .http2BytesTransferred bytes).add .bytesTransferred bytes
def incrementHttp2ActiveConnections : ServerMetrics := m.increment .http2ActiveConnections
def decrementHttp2ActiveConnections : ServerMetrics := m.decrement .http2ActiveConnections
def incrementIpv6Requests : ServerMetrics := m.add .ipv6RequestsTotal 1
def addIpv6Bytes : ServerMetrics := m.add .ipv6BytesTransferred bytes
def incrementIpv6ActiveConnections : ServerMetrics := m.increment .ipv6ActiveConnections
def decrementIpv6ActiveConnections : ServerMetrics := m.decrement .ipv6ActiveConnections

end ServerMetrics

inductive Call where
  | incrementRequests
  | incrementSuccess
  | incrementErrors
  | incrementCacheHits
  | incrementCacheMisses
  | addBytes (bytes : Nat)
  | setActiveConnections (count : Int)
  | incrementActiveConnections
  | decrementActiveConnections
  | incrementHttp2Requests
  | addHttp2Bytes (bytes : Nat)
  | incrementHttp2ActiveConnections
  | decrementHttp2ActiveConnections
  | incrementIpv6Requests
  | addIpv6Bytes (bytes : Nat)
  | incrementIpv6ActiveConnections
  | decrementIpv6ActiveConnections

/-- Each function holds the lock from its start to its end. -/
def Call.apply (m : ServerMetrics) : Call → ServerMetrics
  | .incrementRequests => m.incrementRequests
  | .incrementSuccess => m.incrementSuccess
  | .incrementErrors => m.incrementErrors
  | .incrementCacheHits => m.incrementCacheHits
  | .incrementCacheMisses => m.incrementCacheMisses
  | .addBytes bytes => m.addBytes bytes
  | .setActiveConnections count => m.setActiveConnections count
  | .incrementActiveConnections => m.incrementActiveConnections
  | .decrementActiveConnections => m.decrementActiveConnections
  | .incrementHttp2Requests => m.incrementHttp2Requests
  | .addHttp2Bytes bytes => m.addHttp2Bytes bytes
  | .incrementHttp2ActiveConnections => m.incrementHttp2ActiveConnections
  | .decrementHttp2ActiveConnections => m.decrementHttp2ActiveConnections
  | .incrementIpv6Requests => m.incrementIpv6Requests
  | .addIpv6Bytes bytes => m.addIpv6Bytes bytes
  | .incrementIpv6ActiveConnections => m.incrementIpv6ActiveConnections
  | .decrementIpv6ActiveConnections => m.decrementIpv6ActiveConnections

/-! ## The page -/

inductive Metric where
  | counter (c : Counter)
  | gauge (g : Gauge)
  deriving DecidableEq

def Metric.kind : Metric → Bytes
  | .counter _ => ascii "counter"
  | .gauge _ => ascii "gauge"

def Metric.shown (m : ServerMetrics) : Metric → Bytes
  | .counter c => printed (m.counter c)
  | .gauge g => ascii (toString (m.gauge g))

structure Sample where
  name : Bytes
  help : Bytes
  kind : Bytes
  value : Bytes

def Sample.lines (s : Sample) : List Bytes :=
  [ascii "# HELP " ++ s.name ++ 32 :: s.help, ascii "# TYPE " ++ s.name ++ 32 :: s.kind,
    s.name ++ 32 :: s.value]

def Sample.text (s : Sample) : Bytes := s.lines.flatMap (· ++ [10])

def metricTable : List (Metric × Bytes × Bytes) :=
  [(.counter .requestsTotal, ascii "proxy_requests_total",
      ascii "Total number of HTTP requests processed"),
    (.counter .requestsSuccess, ascii "proxy_requests_success",
      ascii "Total number of successful requests"),
    (.counter .requestsError, ascii "proxy_requests_error",
      ascii "Total number of failed requests"),
    (.counter .cacheHits, ascii "proxy_cache_hits", ascii "Total number of cache hits"),
    (.counter .cacheMisses, ascii "proxy_cache_misses", ascii "Total number of cache misses"),
    (.counter .bytesTransferred, ascii "proxy_bytes_transferred", ascii "Total bytes transferred"),
    (.gauge .activeConnections, ascii "proxy_active_connections",
      ascii "Current number of active client connections"),
    (.counter .http2RequestsTotal, ascii "proxy_http2_requests_total",
      ascii "Total number of HTTP/2 requests"),
    (.counter .http2BytesTransferred, ascii "proxy_http2_bytes_transferred",
      ascii "Total HTTP/2 bytes transferred"),
    (.gauge .http2ActiveConnections, ascii "proxy_http2_active_connections",
      ascii "Current number of active HTTP/2 connections"),
    (.counter .ipv6RequestsTotal, ascii "proxy_ipv6_requests_total",
      ascii "Total number of IPv6 requests"),
    (.counter .ipv6BytesTransferred, ascii "proxy_ipv6_bytes_transferred",
      ascii "Total IPv6 bytes transferred"),
    (.gauge .ipv6ActiveConnections, ascii "proxy_ipv6_active_connections",
      ascii "Current number of active IPv6 connections")]

def samples (m : ServerMetrics) : List Sample :=
  metricTable.map fun row => ⟨row.2.1, row.2.2, row.1.kind, row.1.shown m⟩

/-- `snprintf` into 2048 bytes. -/
def metricsExportPrometheus (m : ServerMetrics) : Bytes :=
  ((samples m).flatMap Sample.text).take 2047

def readSample (page name : Bytes) : Option Bytes :=
  ((page.splitOn 10).find? fun line => (name ++ [32]).isPrefixOf line).map
    (·.drop (name.length + 1))

/-! ## Reading the page -/

structure Sample.Clean (s : Sample) : Prop where
  name_ne : s.name.head? ≠ none ∧ s.name.head? ≠ some 35
  name : 32 ∉ s.name ∧ 10 ∉ s.name
  help : 10 ∉ s.help
  kind : 10 ∉ s.kind
  value : 10 ∉ s.value

variable {s : Sample} {rows : List Sample} {name : Bytes}

theorem Sample.Clean.lines (clean : s.Clean) : ∀ line ∈ s.lines, 10 ∉ line := by
  obtain ⟨-, ⟨-, name⟩, help, kind, value⟩ := clean
  have marks : 10 ∉ ascii "# HELP " ∧ 10 ∉ ascii "# TYPE " := by decide
  intro line member
  simp only [Sample.lines, List.mem_cons, List.not_mem_nil, or_false] at member
  rcases member with rfl | rfl | rfl <;> simp [name, help, kind, value, marks]

theorem splitOn_line {line : Bytes} (plain : 10 ∉ line) (rest : Bytes) :
    (line ++ 10 :: rest).splitOn 10 = line :: rest.splitOn 10 := by
  obtain ⟨first, pieces, split, appended⟩ := splitOn_plain_append plain (10 :: rest)
  have cut : (10 :: rest).splitOn (10 : UInt8) = [] :: rest.splitOn 10 := by
    rw [List.splitOn_cons_eq_if_modifyHead, beq_self_eq_true, if_pos rfl]
  obtain ⟨rfl, rfl⟩ := List.cons.inj (cut.symm.trans split)
  rw [appended, List.append_nil]

theorem splitOn_lines {lines : List Bytes} (plain : ∀ line ∈ lines, 10 ∉ line) :
    (lines.flatMap (· ++ [10])).splitOn 10 = lines ++ [[]] := by
  induction lines with
  | nil => rfl
  | cons line lines ih =>
      rw [List.flatMap_cons, List.append_assoc, List.singleton_append,
        splitOn_line (plain line (by simp)), ih fun l member => plain l (by simp [member]),
        List.cons_append]

theorem begins_iff {other value : Bytes} (blank : 32 ∉ name) (blank' : 32 ∉ other) :
    name ++ [32] <+: other ++ 32 :: value ↔ name = other := by
  constructor
  · rintro ⟨rest, same⟩
    have cut := congrArg (List.takeWhile (· != 32)) same
    rwa [List.append_assoc, List.singleton_append, (Block.cut_at blank rest).1,
      (Block.cut_at blank' value).1] at cut
  · rintro rfl
    exact ⟨value, by simp⟩

theorem comment_begins {rest : Bytes} (head : name.head? ≠ none ∧ name.head? ≠ some 35) :
    ¬ name ++ [32] <+: 35 :: rest := by
  cases name with
  | nil => exact absurd rfl head.1
  | cons c name =>
      rintro ⟨tail, same⟩
      exact head.2 (by simpa using (List.cons.inj same).1)

theorem find_lines (clean : ∀ s ∈ rows, s.Clean) (blank : 32 ∉ name)
    (head : name.head? ≠ none ∧ name.head? ≠ some 35) :
    ((rows.flatMap Sample.lines ++ [[]]).find? fun line => (name ++ [32]).isPrefixOf line) =
      (rows.find? (·.name = name)).map fun s => name ++ 32 :: s.value := by
  induction rows with
  | nil =>
      cases name with
      | nil => exact absurd rfl head.1
      | cons c name => rfl
  | cons s rows ih =>
      have later := ih fun r member => clean r (by simp [member])
      have mine := clean s (by simp)
      have help : ¬ (name ++ [32]).isPrefixOf (ascii "# HELP " ++ s.name ++ 32 :: s.help) := by
        rw [List.isPrefixOf_iff_prefix]
        exact comment_begins head
      have kind : ¬ (name ++ [32]).isPrefixOf (ascii "# TYPE " ++ s.name ++ 32 :: s.kind) := by
        rw [List.isPrefixOf_iff_prefix]
        exact comment_begins head
      have begins := @begins_iff name s.name s.value blank mine.name.1
      simp only [List.flatMap_cons, Sample.lines, List.cons_append, List.nil_append]
      rw [List.find?_cons_of_neg help, List.find?_cons_of_neg kind]
      by_cases same : s.name = name
      · rw [List.find?_cons_of_pos (by
          rw [List.isPrefixOf_iff_prefix]
          exact begins.mpr same.symm), List.find?_cons_of_pos (by simpa using same), same]
        rfl
      · rw [List.find?_cons_of_neg (by
          rw [List.isPrefixOf_iff_prefix, begins]
          exact fun equal => same equal.symm), List.find?_cons_of_neg (by simpa using same), later]

theorem readSample_page (clean : ∀ s ∈ rows, s.Clean) (distinct : (rows.map Sample.name).Nodup)
    (member : s ∈ rows) {head : List Bytes} (plain : ∀ line ∈ head, 10 ∉ line)
    (other : ∀ line ∈ head, ¬ s.name ++ [32] <+: line) :
    readSample (head.flatMap (· ++ [10]) ++ rows.flatMap Sample.text) s.name = some s.value := by
  have mine := clean s member
  have whole : head.flatMap (· ++ [10]) ++ rows.flatMap Sample.text =
      (head ++ rows.flatMap Sample.lines).flatMap (· ++ [10]) := by
    rw [List.flatMap_append, List.flatMap_assoc]
    rfl
  have skipped : (head.find? fun line => (s.name ++ [32]).isPrefixOf line) = none := by
    rw [List.find?_eq_none]
    intro line inside begins
    exact other line inside (List.isPrefixOf_iff_prefix.mp begins)
  have found : rows.find? (·.name = s.name) = some s := by
    cases search : rows.find? (·.name = s.name) with
    | none =>
        rw [List.find?_eq_none] at search
        simpa using search s member
    | some found =>
        have same : found.name = s.name := by simpa using List.find?_some search
        rw [List.inj_on_of_nodup_map distinct (List.mem_of_find?_eq_some search) member same]
  rw [readSample, whole, splitOn_lines, List.append_assoc, List.find?_append, skipped,
    Option.none_or, find_lines clean mine.name.1 mine.name_ne, found, Option.map_some,
    Option.map_some]
  · simp
  · intro line inside
    rcases List.mem_append.mp inside with front | back
    · exact plain line front
    · obtain ⟨r, listed, its⟩ := List.mem_flatMap.mp back
      exact (clean r listed).lines line its

/-! ## The samples -/

theorem isdigit_of_mem_printed {n : Nat} {c : UInt8} (member : c ∈ printed n) :
    isdigit c = true :=
  List.all_eq_true.mp (printed_digits n).1 c member

theorem shown_int (n : Int) : ascii (toString n) =
    if n < 0 then 45 :: printed n.natAbs else printed n.natAbs := by
  cases n with
  | ofNat n => exact ascii_toString_int n
  | negSucc n =>
      rw [if_pos (Int.negSucc_lt_zero n)]
      exact ascii_toString_neg n

theorem newline_shown (m : ServerMetrics) (metric : Metric) : 10 ∉ metric.shown m := by
  have digits : ∀ n, 10 ∉ printed n := fun n member => by
    have digit := isdigit_of_mem_printed member
    simp [isdigit] at digit
  cases metric with
  | counter c => exact digits _
  | gauge g =>
      rw [Metric.shown, shown_int]
      split
      · simp [digits]
      · exact digits _

structure ServerMetrics.Sized (m : ServerMetrics) : Prop where
  counter : ∀ c, m.counter c < 2 ^ 64
  gauge : ∀ g, -2 ^ 31 ≤ m.gauge g ∧ m.gauge g < 2 ^ 31

theorem length_shown {m : ServerMetrics} (sized : m.Sized) (metric : Metric) :
    (metric.shown m).length ≤ 20 := by
  cases metric with
  | counter c => exact length_printed_le (lt_of_lt_of_le (sized.counter c) (by decide))
  | gauge g =>
      have small := sized.gauge g
      have short : (printed (m.gauge g).natAbs).length ≤ 10 := length_printed_le (by omega)
      rw [Metric.shown, shown_int]
      split
      · rw [List.length_cons]
        omega
      · omega

theorem metricTable_plain : ∀ row ∈ metricTable, row.2.1.head? = some 112 ∧
    (∀ c ∈ row.2.1, 32 < c) ∧ (∀ c ∈ row.2.2, 32 ≤ c) ∧ ∀ c ∈ row.1.kind, 32 ≤ c := by
  decide +kernel

theorem samples_clean (m : ServerMetrics) : ∀ s ∈ samples m, s.Clean := by
  intro s member
  obtain ⟨row, listed, rfl⟩ := List.mem_map.mp member
  obtain ⟨head, name, help, kind⟩ := metricTable_plain row listed
  refine ⟨by simp [head], ⟨fun inside => ?_, fun inside => ?_⟩, fun inside => ?_, fun inside => ?_,
    newline_shown m row.1⟩
  · exact absurd (name 32 inside) (by decide)
  · exact absurd (name 10 inside) (by decide)
  · exact absurd (help 10 inside) (by decide)
  · exact absurd (kind 10 inside) (by decide)

theorem samples_distinct (m : ServerMetrics) : ((samples m).map Sample.name).Nodup := by
  have table : (metricTable.map fun row => row.2.1).Nodup := by
    decide +kernel
  rw [samples, List.map_map]
  exact table

def frameLength (name help kind : Bytes) : Nat :=
  20 + 3 * name.length + help.length + kind.length

theorem length_text (s : Sample) :
    s.text.length = frameLength s.name s.help s.kind + s.value.length := by
  have marks : (ascii "# HELP ").length = 7 ∧ (ascii "# TYPE ").length = 7 := by decide
  simp [Sample.text, Sample.lines, frameLength, marks]
  omega

theorem length_page {m : ServerMetrics} (sized : m.Sized) :
    ((samples m).flatMap Sample.text).length ≤ 2047 := by
  have frames : (metricTable.map fun row =>
      frameLength row.2.1 row.2.2 row.1.kind + 20).sum ≤ 2047 := by
    decide +kernel
  refine le_trans ?_ frames
  rw [samples, List.flatMap_map, List.length_flatMap]
  refine List.sum_le_sum fun row _ => ?_
  rw [length_text]
  exact Nat.add_le_add_left (length_shown sized row.1) _

theorem metricsExportPrometheus_eq {m : ServerMetrics} (sized : m.Sized) :
    metricsExportPrometheus m = (samples m).flatMap Sample.text :=
  List.take_of_length_le (length_page sized)

theorem readSample_export {m : ServerMetrics} (sized : m.Sized) {row : Metric × Bytes × Bytes}
    (listed : row ∈ metricTable) {head : List Bytes} (plain : ∀ line ∈ head, 10 ∉ line)
    (other : ∀ line ∈ head, ¬ row.2.1 ++ [32] <+: line) :
    readSample (head.flatMap (· ++ [10]) ++ metricsExportPrometheus m) row.2.1 =
      some (row.1.shown m) := by
  rw [metricsExportPrometheus_eq sized]
  exact readSample_page (samples_clean m) (samples_distinct m) (List.mem_map_of_mem listed) plain
    other

/-! ## What the counters add up to -/

def Call.raises (c : Counter) : Call → Nat
  | .incrementRequests => if c = .requestsTotal then 1 else 0
  | .incrementSuccess => if c = .requestsSuccess then 1 else 0
  | .incrementErrors => if c = .requestsError then 1 else 0
  | .incrementCacheHits => if c = .cacheHits then 1 else 0
  | .incrementCacheMisses => if c = .cacheMisses then 1 else 0
  | .addBytes bytes => if c = .bytesTransferred then bytes else 0
  | .incrementHttp2Requests => if c = .http2RequestsTotal ∨ c = .requestsTotal then 1 else 0
  | .addHttp2Bytes bytes => if c = .http2BytesTransferred ∨ c = .bytesTransferred then bytes else 0
  | .incrementIpv6Requests => if c = .ipv6RequestsTotal then 1 else 0
  | .addIpv6Bytes bytes => if c = .ipv6BytesTransferred then bytes else 0
  | _ => 0

section Apply

variable {m : ServerMetrics} {c : Counter}

theorem add_counter (small : m.counter c < 2 ^ 64) (d : Counter) (n : Nat) :
    (m.add d n).counter c = (m.counter c + if c = d then n else 0) % 2 ^ 64 := by
  simp only [ServerMetrics.add, Function.update_apply]
  split
  · rename_i same
    rw [same]
  · rw [Nat.add_zero, Nat.mod_eq_of_lt small]

theorem add_both (small : m.counter c < 2 ^ 64) {d e : Counter} (other : d ≠ e) (n : Nat) :
    ((m.add d n).add e n).counter c = (m.counter c + if c = d ∨ c = e then n else 0) % 2 ^ 64 := by
  have between : (m.add d n).counter c < 2 ^ 64 := by
    rw [add_counter small]
    exact Nat.mod_lt _ (by decide)
  rw [add_counter between, add_counter small]
  by_cases first : c = d
  · have second : c ≠ e := first ▸ other
    rw [if_pos first, if_neg second, if_pos (.inl first), Nat.add_zero, Nat.mod_mod]
  · rw [if_neg first, Nat.add_zero, Nat.mod_eq_of_lt small]
    simp only [first, false_or]

theorem decrement_counter (m : ServerMetrics) (g : Gauge) :
    (m.decrement g).counter = m.counter := by
  rw [ServerMetrics.decrement]
  split <;> rfl

theorem apply_counter (small : m.counter c < 2 ^ 64) (call : Call) :
    (call.apply m).counter c = (m.counter c + call.raises c) % 2 ^ 64 := by
  have still : m.counter c = (m.counter c + 0) % 2 ^ 64 := by
    rw [Nat.add_zero, Nat.mod_eq_of_lt small]
  cases call with
  | incrementHttp2Requests => exact add_both small (by decide) 1
  | addHttp2Bytes bytes => exact add_both small (by decide) bytes
  | decrementActiveConnections => exact (congrFun (decrement_counter m _) c).trans still
  | decrementHttp2ActiveConnections => exact (congrFun (decrement_counter m _) c).trans still
  | decrementIpv6ActiveConnections => exact (congrFun (decrement_counter m _) c).trans still
  | setActiveConnections count => exact still
  | incrementActiveConnections => exact still
  | incrementHttp2ActiveConnections => exact still
  | incrementIpv6ActiveConnections => exact still
  | _ => exact add_counter small _ _

theorem toInt_range (n : Int) : -2 ^ 31 ≤ toInt n ∧ toInt n < 2 ^ 31 :=
  ⟨Int.le_bmod (by decide), Int.bmod_lt (by decide)⟩

theorem set_range (range : ∀ g, -2 ^ 31 ≤ m.gauge g ∧ m.gauge g < 2 ^ 31) {n : Int}
    (small : -2 ^ 31 ≤ n ∧ n < 2 ^ 31) (g h : Gauge) :
    -2 ^ 31 ≤ (m.set g n).gauge h ∧ (m.set g n).gauge h < 2 ^ 31 := by
  simp only [ServerMetrics.set, Function.update_apply]
  split
  · exact small
  · exact range h

theorem apply_gauge (range : ∀ g, -2 ^ 31 ≤ m.gauge g ∧ m.gauge g < 2 ^ 31) (call : Call)
    (h : Gauge) : -2 ^ 31 ≤ (call.apply m).gauge h ∧ (call.apply m).gauge h < 2 ^ 31 := by
  have down : ∀ g, -2 ^ 31 ≤ (m.decrement g).gauge h ∧ (m.decrement g).gauge h < 2 ^ 31 := by
    intro g
    rw [ServerMetrics.decrement]
    split
    · have before := range g
      exact set_range range (by omega) g h
    · exact range h
  cases call with
  | setActiveConnections count => exact set_range range (toInt_range _) _ h
  | incrementActiveConnections => exact set_range range (toInt_range _) _ h
  | incrementHttp2ActiveConnections => exact set_range range (toInt_range _) _ h
  | incrementIpv6ActiveConnections => exact set_range range (toInt_range _) _ h
  | decrementActiveConnections => exact down _
  | decrementHttp2ActiveConnections => exact down _
  | decrementIpv6ActiveConnections => exact down _
  | _ => exact range h

end Apply

section Threads

variable {ι : Type} [Fintype ι]

def exec (call : Call) (m : ServerMetrics) : Option ServerMetrics := some (call.apply m)

def raised (t : Threads ι Call ServerMetrics) (c : Counter) : Nat :=
  ∑ i, ((t.past i).map (·.raises c)).sum

theorem tally_raises (t : Threads ι Call ServerMetrics) (c : Counter) :
    t.tally (fun call => call.raises c) = raised t c := by
  rw [Threads.tally, raised, Nat.cast_sum]
  refine Finset.sum_congr rfl fun i _ => ?_
  rw [Nat.cast_list_sum, List.map_map]
  rfl

variable [DecidableEq ι]

theorem run_counter {program : ι → List Call} {schedule : List ι}
    {t : Threads ι Call ServerMetrics}
    (reached : run (Threads.step exec) (Threads.start .metricsInit program) schedule = some t) :
    t.shared.Sized ∧ ∀ c, t.shared.counter c = raised t c % 2 ^ 64 := by
  refine @run_invariant _ _ (Threads.step exec)
    (fun t => t.shared.Sized ∧ ∀ c, t.shared.counter c = raised t c % 2 ^ 64) _ _ _
    (fun t i t' before taken => ?_) ⟨⟨fun c => ?_, fun g => ?_⟩, fun c => ?_⟩ reached
  · obtain ⟨⟨small, range⟩, counts⟩ := before
    obtain ⟨call, rest, m, -, carried, rfl⟩ := Threads.step_cases exec taken
    cases carried
    refine ⟨⟨fun c => ?_, apply_gauge range call⟩, fun c => ?_⟩
    · rw [apply_counter (small c)]
      exact Nat.mod_lt _ (by decide)
    · have more := @Threads.tally_step _ _ _ _ _ (fun call => (call.raises c : ℤ)) t i call rest
        (call.apply t.shared)
      rw [tally_raises, tally_raises] at more
      rw [apply_counter (small c), counts c, Nat.mod_add_mod]
      congr 1
      exact_mod_cast more.symm
  · exact Nat.two_pow_pos 64
  · change -2 ^ 31 ≤ (0 : Int) ∧ (0 : Int) < 2 ^ 31
    decide
  · have none := tally_raises (Threads.start .metricsInit program) c
    rw [Threads.tally_start] at none
    rw [Int.natCast_eq_zero.mp none.symm]
    rfl

end Threads

end ProxyServer.Metrics
