import ProxyServer.Decimal
import ProxyServer.Http2.Response
import ProxyServer.Lib.Lines

namespace ProxyServer.Http2
open Lib Lines

structure ResponseHead where
  version : Bytes
  digits : Bytes
  reason : Bytes
  fields : List Bytes
  versionPlain : ∀ c ∈ version, c ≠ 32 ∧ c ≠ 0 ∧ c ≠ 13
  three : digits.length = 3
  allDigits : digits.all isdigit = true
  reasonClean : 13 ∉ reason
  fieldsClean : ∀ f ∈ fields, f ≠ [] ∧ 13 ∉ f

namespace ResponseHead

def statusLine (h : ResponseHead) : Bytes := h.version ++ 32 :: (h.digits ++ 32 :: h.reason)

def bytes (h : ResponseHead) : Bytes := terminated (h.statusLine :: h.fields) ++ crlf

def front (h : ResponseHead) : Bytes := h.statusLine ++ joined h.fields

end ResponseHead

def Submission.status : Submission → Option Bytes
  | .response status => some status
  | .data _ _ => none

def statuses (submitted : List Submission) : List Bytes := submitted.filterMap Submission.status

def statusOf (buf rest : Bytes) : Bytes :=
  ascii (toString ((Http2Stream.parseStatus buf (buf.length - rest.length)).2.getD 0))

namespace ResponseHead

variable (h : ResponseHead)

theorem bytes_eq : h.bytes = h.front ++ headerEnd := by
  rw [bytes, terminated_cons, crlf_terminated, front]
  simp [crlf, headerEnd, ascii]

theorem statusLine_clean : 13 ∉ h.statusLine := by
  have version : 13 ∉ h.version := fun inside => (h.versionPlain 13 inside).2.2 rfl
  have digits : 13 ∉ h.digits := fun inside =>
    absurd (List.all_eq_true.mp h.allDigits 13 inside) (by decide)
  simp [statusLine, version, digits, h.reasonClean]

theorem memmem_bytes (more : Bytes) :
    memmem (h.bytes ++ more) headerEnd = some (headerEnd ++ more) := by
  rw [bytes_eq, List.append_assoc]
  exact memmem_section h.statusLine_clean h.fieldsClean more

end ResponseHead

namespace Http2Stream

theorem blankFrom_append (before : Bytes) {text : Bytes} (plain : ∀ c ∈ text, c ≠ 32 ∧ c ≠ 0)
    (rest : Bytes) : blankFrom (before ++ (text ++ 32 :: rest)) before.length =
      some (before.length + text.length) := by
  have string : 0 ∉ text := fun inside => (plain 0 inside).2 rfl
  have none : text.findIdx? (· == 32) = none := by
    rw [List.findIdx?_eq_none_iff]
    intro c inside
    simpa using (plain c inside).1
  have blank : cstr (32 :: rest) = 32 :: cstr rest := rfl
  rw [blankFrom, List.drop_left, cstr_append string, List.findIdx?_append, none, blank,
    List.findIdx?_cons]
  simp [Nat.add_comm]

theorem set_append (before : Bytes) (c d : UInt8) (rest : Bytes) :
    (before ++ c :: rest).set before.length d = before ++ d :: rest := by
  simp

theorem parseStatus_line {version digits reason : Bytes}
    (versionPlain : ∀ c ∈ version, c ≠ 32 ∧ c ≠ 0) (digitsPlain : ∀ c ∈ digits, c ≠ 32 ∧ c ≠ 0)
    {line : Bytes} (isLine : line = version ++ 32 :: (digits ++ 32 :: reason))
    (clean : 13 ∉ line) (lines more : Bytes) :
    (parseStatus (line ++ (crlf ++ lines) ++ more) (line ++ (crlf ++ lines)).length).2 =
      some (atoi digits) := by
  have found : memmem (line ++ (crlf ++ lines)) (ascii "\r\n") = some (crlf ++ lines) :=
    memmem_line (fun inside => clean (inside.subset (by simp [crlf]))) lines
  have index : (line ++ (crlf ++ lines)).length - (crlf ++ lines).length = line.length := by
    rw [List.length_append, Nat.add_sub_cancel]
  have cut : (line ++ (crlf ++ lines) ++ more).set line.length 0 =
      line ++ 0 :: (10 :: lines ++ more) := by
    simp [crlf]
  simp only [parseStatus, List.take_left, found, index, cut]
  -- The two blanks, and what is left of the line when they are zero bytes.
  generalize 0 :: (10 :: lines ++ more) = rest
  have whole : line ++ rest = [] ++ (version ++ 32 :: (digits ++ 32 :: (reason ++ rest))) := by
    simp [isLine]
  have first : blankFrom (line ++ rest) 0 = some version.length := by
    rw [whole]
    simpa using blankFrom_append [] versionPlain (digits ++ 32 :: (reason ++ rest))
  have terminated : (line ++ rest).set version.length 0 =
      (version ++ [0]) ++ (digits ++ 32 :: (reason ++ rest)) := by
    rw [whole, List.nil_append, set_append]
    simp
  have second := blankFrom_append (version ++ [0]) digitsPlain (reason ++ rest)
  rw [List.length_append, List.length_singleton] at second
  have code : ((version ++ [0]) ++ (digits ++ 32 :: (reason ++ rest))).set
      (version.length + 1 + digits.length) 0 =
        (version ++ [0]) ++ (digits ++ 0 :: (reason ++ rest)) := by
    have stored := set_append (version ++ [0] ++ digits) 32 0 (reason ++ rest)
    simpa only [List.append_assoc, List.length_append, List.length_singleton, Nat.add_assoc]
      using stored
  have front : version.length + 1 = (version ++ [0]).length := by simp
  simp only [first, terminated, second, code]
  rw [front, List.drop_left, cstr_append_zero,
    cstr_of_string fun inside => (digitsPlain 0 inside).2 rfl]

theorem parseStatus_alone {line : Bytes} (clean : 13 ∉ line) (more : Bytes) :
    (parseStatus (line ++ more) line.length).2 = none := by
  have absent : memmem line (ascii "\r\n") = none := by
    have skipped : memmem (line ++ []) (ascii "\r\n") = memmem [] (ascii "\r\n") :=
      memmem_skip (by decide) clean []
    rw [List.append_nil] at skipped
    rw [skipped]
    decide
  rw [parseStatus, List.take_left, absent]

structure Unread (s : Http2Stream) (response : Bytes) : Prop where
  headers : s.upstreamHeadersComplete = false
  code : s.upstreamStatusCode = 0
  buffer : s.upstreamResponseBuf = response
  absent : memmem response headerEnd = none

variable {s : Http2Stream} {response : Bytes}

theorem statuses_append (xs ys : List Submission) :
    statuses (xs ++ ys) = statuses xs ++ statuses ys := List.filterMap_append

theorem submitHeaders_status (code : s.upstreamStatusCode = 0) {rest : Bytes}
    (found : memmem s.upstreamResponseBuf headerEnd = some rest) (calls : ReadCalls) :
    statuses (s.submitHeaders (rest.drop 4) calls).submitted =
      [statusOf s.upstreamResponseBuf rest] := by
  obtain ⟨long, short⟩ := headerEnd_length found
  have pos : s.upstreamResponseBuf.length - (rest.drop 4).length - 4 =
      s.upstreamResponseBuf.length - rest.length := by
    rw [List.length_drop]
    omega
  unfold submitHeaders
  simp only [pos, code, statusOf]
  split
  · rfl
  · split
    · rfl
    · split <;> rfl

theorem readData_unread (unread : s.Unread response) (bytes : Bytes) (calls : ReadCalls) :
    let result := s.readData bytes calls
    (memmem (response ++ bytes) headerEnd = none ∧ result.stream.Unread (response ++ bytes) ∧
        statuses result.submitted = []) ∨
      ∃ rest, memmem (response ++ bytes) headerEnd = some rest ∧
        result.stream.upstreamHeadersComplete = true ∧
        statuses result.submitted = [statusOf (response ++ bytes) rest] := by
  have whole : (s.append bytes).upstreamResponseBuf = response ++ bytes := by
    rw [← unread.buffer]
    rfl
  have early : (s.append bytes).upstreamHeadersComplete = false := unread.headers
  have completed := (s.append bytes).completeHeaders_eq calls
  rw [if_neg (by simp [early]), whole] at completed
  cases found : memmem (response ++ bytes) headerEnd with
  | none =>
      rw [found] at completed
      rw [readData_eq completed, if_neg (by simp), if_pos early]
      exact Or.inl ⟨rfl, ⟨early, unread.code, whole, found⟩, rfl⟩
  | some rest =>
      rw [found] at completed
      obtain ⟨complete, -⟩ := (s.append bytes).submitHeaders_cases (rest.drop 4) calls
      have status := submitHeaders_status (s := s.append bytes) unread.code
        (whole.symm ▸ found) calls
      rw [whole] at status
      change _ = (s.append bytes).submitHeaders (rest.drop 4) calls at completed
      rw [readData_eq completed]
      refine Or.inr ⟨rest, rfl, ?_⟩
      by_cases failed : ((s.append bytes).submitHeaders (rest.drop 4) calls).ret ≠ 0
      · rw [if_pos failed]
        exact ⟨complete, status⟩
      · rw [if_neg failed, if_neg (by simp [complete]), statuses_append, status]
        exact ⟨complete, rfl⟩

theorem readData_late (complete : s.upstreamHeadersComplete = true) (bytes : Bytes)
    (calls : ReadCalls) :
    let result := s.readData bytes calls
    result.stream.upstreamHeadersComplete = true ∧ statuses result.submitted = [] := by
  have complete' : (s.append bytes).upstreamHeadersComplete = true := complete
  have completed := (s.append bytes).completeHeaders_eq calls
  rw [if_pos complete'] at completed
  rw [readData_eq completed, if_neg (by simp), if_neg (by simp [complete'])]
  exact ⟨complete', rfl⟩

theorem trace_late (port : UInt16) (reading : s.Reading)
    (complete : s.upstreamHeadersComplete = true) {rounds : List Round}
    (stillOpen : ∀ round ∈ rounds, round.read.isClosed = false) :
    ∃ t submitted, trace (exec port) s rounds = some (t, submitted) ∧
      statuses submitted.flatten = [] := by
  induction rounds generalizing s with
  | nil => exact ⟨s, [], rfl, rfl⟩
  | cons round rounds ih =>
      rw [List.forall_mem_cons] at stillOpen
      have next : (s.readResponse round.read).stream.Reading ∧
          (s.readResponse round.read).stream.upstreamHeadersComplete = true ∧
          statuses (s.readResponse round.read).submitted = [] := by
        cases read : round.read with
        | data piece calls =>
            exact ⟨reading.readData _ _, readData_late complete piece.bytes calls⟩
        | again => exact ⟨reading, complete, rfl⟩
        | closed calls => simp [read, UpstreamRead.isClosed] at stillOpen
        | failed => exact ⟨reading, complete, rfl⟩
      obtain ⟨t, submitted, ran, none⟩ := ih next.1 next.2.1 stillOpen.2
      refine ⟨t, (s.readResponse round.read).submitted :: submitted, ?_, ?_⟩
      · simp [trace, reading.exec, ran]
      · rw [List.flatten_cons, statuses_append, next.2.2, none]
        rfl

theorem trace_status (port : UInt16) (reading : s.Reading) (unread : s.Unread response)
    {rounds : List Round} (stillOpen : ∀ round ∈ rounds, round.read.isClosed = false)
    (ends : memmem (response ++ received rounds) headerEnd ≠ none) :
    ∃ t submitted seen rest, trace (exec port) s rounds = some (t, submitted) ∧
      seen <+: response ++ received rounds ∧ memmem seen headerEnd = some rest ∧
      statuses submitted.flatten = [statusOf seen rest] := by
  induction rounds generalizing s response with
  | nil =>
      rw [received, List.flatMap_nil, List.append_nil] at ends
      exact absurd unread.absent ends
  | cons round rounds ih =>
      rw [List.forall_mem_cons] at stillOpen
      have split : response ++ received (round :: rounds) =
          (response ++ round.read.bytes) ++ received rounds := by
        simp [received]
      rw [split] at ends ⊢
      have next : (s.readResponse round.read).stream.Reading ∧
          (((s.readResponse round.read).stream.Unread (response ++ round.read.bytes) ∧
              statuses (s.readResponse round.read).submitted = []) ∨
            ∃ rest, memmem (response ++ round.read.bytes) headerEnd = some rest ∧
              (s.readResponse round.read).stream.upstreamHeadersComplete = true ∧
              statuses (s.readResponse round.read).submitted =
                [statusOf (response ++ round.read.bytes) rest]) := by
        cases read : round.read with
        | data piece calls =>
            refine ⟨reading.readData _ _, ?_⟩
            rcases readData_unread unread piece.bytes calls with ⟨-, early⟩ | found
            · exact Or.inl early
            · exact Or.inr found
        | again =>
            rw [UpstreamRead.bytes, List.append_nil]
            exact ⟨reading, Or.inl ⟨unread, rfl⟩⟩
        | closed calls => simp [read, UpstreamRead.isClosed] at stillOpen
        | failed =>
            rw [UpstreamRead.bytes, List.append_nil]
            exact ⟨reading, Or.inl ⟨unread, rfl⟩⟩
      obtain ⟨reading', ⟨unread', none⟩ | ⟨rest, found, complete, status⟩⟩ := next
      · obtain ⟨t, submitted, seen, rest, ran, isPrefix, found, status⟩ :=
          ih reading' unread' stillOpen.2 ends
        refine ⟨t, (s.readResponse round.read).submitted :: submitted, seen, rest, ?_, isPrefix,
          found, ?_⟩
        · simp [trace, reading.exec, ran]
        · rw [List.flatten_cons, statuses_append, none, status]
          rfl
      · obtain ⟨t, submitted, ran, none⟩ := trace_late port reading' complete stillOpen.2
        refine ⟨t, (s.readResponse round.read).submitted :: submitted, _, rest, ?_,
          List.prefix_append _ _, found, ?_⟩
        · simp [trace, reading.exec, ran]
        · rw [List.flatten_cons, statuses_append, status, none]
          rfl

end Http2Stream

theorem statusOf_head (h : ResponseHead) (more : Bytes) :
    statusOf (h.bytes ++ more) (headerEnd ++ more) =
      if h.fields = [] then ascii "0" else printed (digitsValue h.digits) := by
  have whole : h.bytes ++ more = h.front ++ (headerEnd ++ more) := by
    rw [h.bytes_eq, List.append_assoc]
  have pos : (h.front ++ (headerEnd ++ more)).length - (headerEnd ++ more).length =
      h.front.length := by
    rw [List.length_append, Nat.add_sub_cancel]
  rw [whole, statusOf, pos, ResponseHead.front]
  cases given : h.fields with
  | nil =>
      rw [joined_nil, List.append_nil, if_pos rfl, Http2Stream.parseStatus_alone h.statusLine_clean]
      rfl
  | cons f fields =>
      have plain (c : UInt8) (inside : c ∈ h.digits) : c ≠ 32 ∧ c ≠ 0 := by
        obtain ⟨-, -, -, blank, zero⟩ := isdigit_ne (List.all_eq_true.mp h.allDigits c inside)
        exact ⟨blank, zero⟩
      have small := digitsValue_lt h.allDigits
      have code : atoi h.digits = digitsValue h.digits := by
        rw [h.three] at small
        rw [atoi, strtol_eq, numberOf_digits h.allDigits]
        have fits : max (min (digitsValue h.digits : Int) (2 ^ 63 - 1)) (-2 ^ 63) =
            (digitsValue h.digits : Int) := by omega
        rw [fits, toInt_length]
        omega
      have isLine : h.statusLine = h.version ++ 32 :: (h.digits ++ 32 :: h.reason) := rfl
      have parsed := Http2Stream.parseStatus_line
        (fun c inside => ⟨(h.versionPlain c inside).1, (h.versionPlain c inside).2.1⟩) plain isLine
        h.statusLine_clean (f ++ joined fields) (headerEnd ++ more)
      rw [joined_cons, parsed, code, if_neg (by simp), Option.getD_some, ascii_toString_int]

theorem printed_three {digits : Bytes} (three : digits.length = 3)
    (allDigits : digits.all isdigit = true) :
    printed (digitsValue digits) = digits ↔ digits.head? ≠ some 48 := by
  have nonempty : digits ≠ [] := List.ne_nil_of_length_pos (by omega)
  constructor
  · intro same zero
    rw [← same] at zero
    have one := printed_leading zero
    rw [same] at one
    omega
  · intro leading
    exact printed_value allDigits nonempty (Or.inl leading)

namespace Http2Stream

structure AwaitsStatus (s : Http2Stream) : Prop extends s.Awaiting where
  code : s.upstreamStatusCode = 0

theorem status_iff {s : Http2Stream} (awaits : s.AwaitsStatus) (port : UInt16) (h : ResponseHead)
    (more : Bytes) {rounds : List Round}
    (stillOpen : ∀ round ∈ rounds, round.read.isClosed = false)
    (reads : received rounds = h.bytes ++ more) :
    ∃ t submitted status, trace (exec port) s rounds = some (t, submitted) ∧
      statuses submitted.flatten = [status] ∧
      (status = h.digits ↔ h.fields ≠ [] ∧ h.digits.head? ≠ some 48) := by
  have reading : s.Reading := ⟨awaits.requestComplete, awaits.responseComplete, awaits.state⟩
  have unread : s.Unread [] := ⟨awaits.headers, awaits.code, awaits.buffer, by decide⟩
  have ends : memmem ([] ++ received rounds) headerEnd ≠ none := by
    rw [List.nil_append, reads, h.memmem_bytes]
    simp
  obtain ⟨t, submitted, seen, rest, ran, ⟨later, whole⟩, found, status⟩ :=
    trace_status port reading unread stillOpen ends
  rw [List.nil_append, reads] at whole
  -- What had been read by then was the head and perhaps something after it.
  have same : headerEnd ++ more = rest ++ later := by
    have atEnd := memmem_append found later
    rw [whole, h.memmem_bytes] at atEnd
    exact Option.some.inj atEnd
  obtain ⟨after, rfl⟩ := memmem_starts found
  have isSeen : seen = h.bytes ++ after := by
    rw [List.append_assoc, List.append_cancel_left_eq] at same
    rw [same, ← List.append_assoc, List.append_cancel_right_eq] at whole
    exact whole
  rw [isSeen, statusOf_head] at status
  refine ⟨t, submitted, _, ran, status, ?_⟩
  split
  · rename_i none
    simp only [none, ne_eq, not_true_eq_false, false_and, iff_false]
    intro zero
    have length := congrArg List.length zero
    rw [h.three] at length
    exact absurd length (by decide)
  · rename_i some
    rw [printed_three h.three h.allDigits]
    exact (and_iff_right some).symm

def bareHead : ResponseHead where
  version := ascii "HTTP/1.1"
  digits := ascii "204"
  reason := ascii "No Content"
  fields := []
  versionPlain := by decide
  three := by decide
  allDigits := by decide
  reasonClean := by decide
  fieldsClean := by decide

def bareRounds : List Round :=
  [⟨quietCalls, [], .data ⟨bareHead.bytes, by decide, by decide⟩ ⟨true, true, true⟩⟩]

theorem awaitingStream_awaits : awaitingStream.AwaitsStatus := ⟨⟨rfl, rfl, rfl, rfl, rfl⟩, rfl⟩

def fieldHead : ResponseHead :=
  { bareHead with
    fields := [ascii "Server: a"]
    fieldsClean := by decide }

def splitRounds : List Round :=
  [⟨quietCalls, [], .data ⟨fieldHead.bytes.take 30, by decide, by decide⟩ ⟨true, true, true⟩⟩,
    ⟨quietCalls, [], .data ⟨fieldHead.bytes.drop 30, by decide, by decide⟩ ⟨true, true, true⟩⟩]

theorem status_iff_heads :
    (∃ t submitted status, trace (exec 443) awaitingStream bareRounds = some (t, submitted) ∧
      statuses submitted.flatten = [status] ∧
      (status = bareHead.digits ↔
        bareHead.fields ≠ [] ∧ bareHead.digits.head? ≠ some 48)) ∧
    ∃ t submitted status, trace (exec 443) awaitingStream splitRounds = some (t, submitted) ∧
      statuses submitted.flatten = [status] ∧
      (status = fieldHead.digits ↔
        fieldHead.fields ≠ [] ∧ fieldHead.digits.head? ≠ some 48) := by
  refine ⟨status_iff awaitingStream_awaits 443 bareHead [] ?_ ?_,
    status_iff awaitingStream_awaits 443 fieldHead [] ?_ ?_⟩
  · simp [bareRounds, UpstreamRead.isClosed]
  · simp [bareRounds, received, UpstreamRead.bytes]
  · simp [splitRounds, UpstreamRead.isClosed]
  · simp [splitRounds, received, UpstreamRead.bytes]

theorem status_zero :
    bareHead.bytes = ascii "HTTP/1.1 204 No Content\r\n\r\n" ∧
    (trace (exec 443) awaitingStream bareRounds).map (fun run => statuses run.2.flatten) =
      some [ascii "0"] ∧ ascii "0" ≠ bareHead.digits := by
  decide

end Http2Stream
end ProxyServer.Http2
