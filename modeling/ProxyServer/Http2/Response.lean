import ProxyServer.Http2.Stream
import ProxyServer.Lib.Run

namespace ProxyServer.Http2
open Lib

def headerEnd : Bytes := ascii "\r\n\r\n"

def bodyOf (response : Bytes) : Bytes := (memmem response headerEnd).elim [] (·.drop 4)

def Submission.payload : Submission → Bytes
  | .response _ => []
  | .data payload _ => payload

def payloads (submitted : List Submission) : Bytes := submitted.flatMap Submission.payload

def UpstreamRead.bytes : UpstreamRead → Bytes
  | .data piece _ => piece.bytes
  | .again | .closed _ | .failed => []

def UpstreamRead.isClosed : UpstreamRead → Bool
  | .closed _ => true
  | .data _ _ | .again | .failed => false

structure ResponseRounds where
  before : List Round
  first : Round
  after : List Round
  stillOpen : ∀ round ∈ before, round.read.isClosed = false
  closed : ∀ round ∈ first :: after, round.read.isClosed = true

def received (rounds : List Round) : Bytes := rounds.flatMap (·.read.bytes)

def ResponseRounds.response (r : ResponseRounds) : Bytes := received r.before

namespace Http2Stream

def exec (port : UInt16) (s : Http2Stream) (round : Round) :
    Option (Http2Stream × List Submission) :=
  (s.process port round).map fun result => (result.stream, result.submitted)

structure Awaiting (s : Http2Stream) : Prop where
  requestComplete : s.requestComplete = true
  responseComplete : s.responseComplete = false
  state : s.upstreamState = .readingResponse
  headers : s.upstreamHeadersComplete = false
  buffer : s.upstreamResponseBuf = []

/-- Nothing is submitted before the headers are complete; after that, what has been submitted and
what is still in the buffer are more than the body. -/
def Gathered (s : Http2Stream) (response handed : Bytes) : Prop :=
  (s.upstreamHeadersComplete = false ∧ s.upstreamResponseBuf = response ∧ handed = [] ∧
      memmem response headerEnd = none) ∨
    s.upstreamHeadersComplete = true ∧ ∃ rest, memmem response headerEnd = some rest ∧
      (rest.drop 4).length < handed.length + s.upstreamResponseBuf.length

variable {s t : Http2Stream} {response handed : Bytes}

theorem payloads_append (xs ys : List Submission) :
    payloads (xs ++ ys) = payloads xs ++ payloads ys := List.flatMap_append

theorem parseStatus_length (buf : Bytes) (pos : Nat) :
    (parseStatus buf pos).1.length = buf.length := by
  unfold parseStatus
  cases memmem (buf.take pos) (ascii "\r\n") with
  | none => rfl
  | some rest =>
      simp only
      split
      · simp
      · split <;> simp

theorem submitHeaders_cases (s : Http2Stream) (tail : Bytes) (calls : ReadCalls) :
    let result := s.submitHeaders tail calls
    result.stream.upstreamHeadersComplete = true ∧
      ((result.ret = 0 ∧ payloads result.submitted = tail ∧
          result.stream.upstreamResponseBuf = []) ∨
        (result.ret ≠ 0 ∧
          result.stream.upstreamResponseBuf.length = s.upstreamResponseBuf.length)) := by
  unfold submitHeaders
  simp only
  split
  · exact ⟨rfl, Or.inr ⟨by simp, parseStatus_length _ _⟩⟩
  · split
    · exact ⟨rfl, Or.inr ⟨by simp, parseStatus_length _ _⟩⟩
    · refine ⟨rfl, Or.inl ⟨rfl, ?_, rfl⟩⟩
      split <;> simp_all [payloads, Submission.payload]

theorem headerEnd_length {rest : Bytes} (found : memmem response headerEnd = some rest) :
    4 ≤ rest.length ∧ rest.length ≤ response.length :=
  ⟨(memmem_starts found).length_le, (memmem_suffix found).length_le⟩

/-- Looking for the end of the headers in less than four bytes would not find it either. -/
theorem completeHeaders_eq (s : Http2Stream) (calls : ReadCalls) :
    s.completeHeaders calls =
      if s.upstreamHeadersComplete = true then ⟨s, 0, []⟩
      else match memmem s.upstreamResponseBuf headerEnd with
        | some rest => s.submitHeaders (rest.drop 4) calls
        | none => ⟨s, 0, []⟩ := by
  unfold completeHeaders
  cases complete : s.upstreamHeadersComplete with
  | true => simp
  | false =>
      cases found : memmem s.upstreamResponseBuf headerEnd with
      | none =>
          have absent : memmem s.upstreamResponseBuf (ascii "\r\n\r\n") = none := found
          simp [absent]
      | some rest =>
          have present : memmem s.upstreamResponseBuf (ascii "\r\n\r\n") = some rest := found
          obtain ⟨long, short⟩ := headerEnd_length found
          simp [present, long.trans short]

theorem readData_eq {bytes : Bytes} {calls : ReadCalls} {headers : RoundResult}
    (completed : (s.append bytes).completeHeaders calls = headers) :
    s.readData bytes calls =
      if headers.ret ≠ 0 then headers
      else if headers.stream.upstreamHeadersComplete = false then headers
      else
        ⟨headers.stream, if calls.submitRead then 0 else -1,
          headers.submitted ++ [.data bytes false]⟩ := by
  rw [readData, completed]

theorem readData_gathered (gathered : s.Gathered response handed) {bytes : Bytes}
    (content : bytes ≠ []) (calls : ReadCalls) :
    let result := s.readData bytes calls
    result.stream.Gathered (response ++ bytes) (handed ++ payloads result.submitted) := by
  have positive := List.length_pos_of_ne_nil content
  have completed := (s.append bytes).completeHeaders_eq calls
  rcases gathered with ⟨early, buffer, rfl, absent⟩ | ⟨complete, rest, found, more⟩
  · have whole : (s.append bytes).upstreamResponseBuf = response ++ bytes := by
      rw [← buffer]
      rfl
    have early' : (s.append bytes).upstreamHeadersComplete = false := early
    rw [if_neg (by simp [early']), whole] at completed
    cases found : memmem (response ++ bytes) headerEnd with
    | none =>
        rw [found] at completed
        rw [readData_eq completed, if_neg (by simp), if_pos early']
        exact Or.inl ⟨early', whole, rfl, found⟩
    | some rest =>
        obtain ⟨long, short⟩ := headerEnd_length found
        rw [found] at completed
        obtain ⟨complete, called⟩ := (s.append bytes).submitHeaders_cases (rest.drop 4) calls
        rw [readData_eq completed]
        rcases called with ⟨ret, tail, empty⟩ | ⟨ret, kept⟩
        · rw [if_neg (by simp [ret]), if_neg (by simp [complete])]
          refine Or.inr ⟨complete, rest, found, ?_⟩
          rw [payloads_append, tail, empty]
          simp [payloads, Submission.payload, positive]
        · rw [if_pos ret]
          refine Or.inr ⟨complete, rest, found, ?_⟩
          rw [kept, whole, List.length_drop]
          omega
  · have complete' : (s.append bytes).upstreamHeadersComplete = true := complete
    rw [if_pos complete'] at completed
    rw [readData_eq completed, if_neg (by simp), if_neg (by simp [complete'])]
    refine Or.inr ⟨complete', rest ++ bytes, memmem_append found bytes, ?_⟩
    have long := (headerEnd_length found).1
    have grown : (s.append bytes).upstreamResponseBuf = s.upstreamResponseBuf ++ bytes := rfl
    rw [List.length_drop] at more ⊢
    rw [grown]
    simp only [payloads, List.nil_append, List.flatMap_singleton, Submission.payload,
      List.length_append]
    omega

theorem readClosed_payloads (s : Http2Stream) (calls : CloseCalls) :
    payloads (s.readClosed calls).submitted =
      if s.upstreamHeadersComplete then s.upstreamResponseBuf else [] := by
  unfold readClosed
  cases complete : s.upstreamHeadersComplete with
  | false =>
      cases calls.submitEnd <;> cases calls.sendPending <;> simp [payloads, Submission.payload]
  | true =>
      by_cases empty : s.upstreamResponseBuf = []
      · cases calls.submitEnd <;> cases calls.sendPending <;>
          simp [payloads, Submission.payload, empty]
      · cases calls.submitBuffered <;> cases calls.submitEnd <;> cases calls.sendPending <;>
          simp [payloads, Submission.payload, empty]

structure Reading (s : Http2Stream) : Prop where
  requestComplete : s.requestComplete = true
  responseComplete : s.responseComplete = false
  state : s.upstreamState = .readingResponse

theorem Reading.exec (reading : s.Reading) (port : UInt16) (round : Round) :
    s.exec port round =
      some ((s.readResponse round.read).stream, (s.readResponse round.read).submitted) := by
  simp [Http2Stream.exec, process, reading.requestComplete, reading.responseComplete,
    reading.state]

def OnlyReads (s t : Http2Stream) : Prop :=
  ∃ complete status buf size, t = { s with
    upstreamHeadersComplete := complete
    upstreamStatusCode := status
    upstreamResponseBuf := buf
    upstreamResponseSize := size }

theorem submitHeaders_stream (s : Http2Stream) (tail : Bytes) (calls : ReadCalls) :
    s.OnlyReads (s.submitHeaders tail calls).stream := by
  unfold submitHeaders
  simp only
  split
  · exact ⟨_, _, _, _, rfl⟩
  · split <;> exact ⟨_, _, _, _, rfl⟩

theorem readData_stream (s : Http2Stream) (bytes : Bytes) (calls : ReadCalls) :
    s.OnlyReads (s.readData bytes calls).stream := by
  have completed : s.OnlyReads ((s.append bytes).completeHeaders calls).stream := by
    rw [completeHeaders_eq]
    split
    · exact ⟨_, _, _, _, rfl⟩
    · split
      · obtain ⟨complete, status, buf, size, same⟩ := submitHeaders_stream (s.append bytes) _ calls
        exact ⟨complete, status, buf, size, same⟩
      · exact ⟨_, _, _, _, rfl⟩
  rw [readData_eq rfl]
  split
  · exact completed
  · split <;> exact completed

theorem readData_frame (s : Http2Stream) (bytes : Bytes) (calls : ReadCalls) :
    let t := (s.readData bytes calls).stream
    t.toStreamRequest = s.toStreamRequest ∧ t.responseComplete = s.responseComplete ∧
      t.upstreamState = s.upstreamState := by
  obtain ⟨complete, status, buf, size, same⟩ := s.readData_stream bytes calls
  rw [same]
  exact ⟨rfl, rfl, rfl⟩

theorem Reading.readData (reading : s.Reading) (bytes : Bytes) (calls : ReadCalls) :
    (s.readData bytes calls).stream.Reading := by
  obtain ⟨request, response, state⟩ := s.readData_frame bytes calls
  exact ⟨by rw [request, reading.requestComplete], by rw [response, reading.responseComplete],
    by rw [state, reading.state]⟩

theorem readResponse_gathered (reading : s.Reading) (gathered : s.Gathered response handed)
    {read : UpstreamRead} (stillOpen : read.isClosed = false) :
    let result := s.readResponse read
    result.stream.Reading ∧
      result.stream.Gathered (response ++ read.bytes) (handed ++ payloads result.submitted) := by
  cases read with
  | data piece calls =>
      exact ⟨reading.readData _ _, readData_gathered gathered piece.nonempty calls⟩
  | again => exact ⟨reading, by simpa [UpstreamRead.bytes, readResponse, payloads] using gathered⟩
  | closed calls => simp [UpstreamRead.isClosed] at stillOpen
  | failed => exact ⟨reading, by simpa [UpstreamRead.bytes, readResponse, payloads] using gathered⟩

theorem trace_gathered (port : UInt16) (reading : s.Reading)
    (gathered : s.Gathered response handed) {rounds : List Round}
    (stillOpen : ∀ round ∈ rounds, round.read.isClosed = false) :
    ∃ t submitted, trace (exec port) s rounds = some (t, submitted) ∧ t.Reading ∧
      t.Gathered (response ++ received rounds) (handed ++ payloads submitted.flatten) := by
  induction rounds generalizing s response handed with
  | nil => exact ⟨s, [], rfl, reading, by simpa [received, payloads] using gathered⟩
  | cons round rounds ih =>
      obtain ⟨next, more⟩ := readResponse_gathered reading gathered (stillOpen round (by simp))
      obtain ⟨t, submitted, ran, last, final⟩ :=
        ih next more fun later member => stillOpen later (by simp [member])
      refine ⟨t, (s.readResponse round.read).submitted :: submitted, ?_, last, ?_⟩
      · simp [trace, reading.exec, ran]
      · simpa [received, payloads, List.append_assoc] using final

theorem readClosed_stream (s : Http2Stream) (calls : CloseCalls) :
    (s.readClosed calls).stream = s ∨
      (s.readClosed calls).stream =
        { s with responseComplete := true, upstreamState := .done } := by
  unfold readClosed
  simp only
  split_ifs <;> simp

theorem exec_closed (port : UInt16) (request : s.requestComplete = true)
    (phase : s.Reading ∨ s.responseComplete = true) {round : Round}
    (closed : round.read.isClosed = true) :
    ∃ t submitted, s.exec port round = some (t, submitted) ∧ t.requestComplete = true ∧
      (t.Reading ∨ t.responseComplete = true) ∧
      t.upstreamHeadersComplete = s.upstreamHeadersComplete ∧
      (s.upstreamHeadersComplete = false → payloads submitted = []) ∧
      (s.Reading → s.upstreamHeadersComplete = true →
        payloads submitted = s.upstreamResponseBuf) := by
  by_cases response : s.responseComplete = true
  · refine ⟨s, [], ?_, request, Or.inr response, rfl, fun _ => rfl, ?_⟩
    · simp [exec, process, request, response]
    · intro reading
      rw [reading.responseComplete] at response
      cases response
  · have reading := phase.resolve_right response
    obtain ⟨calls, isClosed⟩ : ∃ calls, round.read = .closed calls := by
      cases read : round.read <;> simp_all [UpstreamRead.isClosed]
    have ran := reading.exec port round
    rw [isClosed, readResponse] at ran
    have submits := s.readClosed_payloads calls
    refine ⟨_, _, ran, ?_⟩
    rcases s.readClosed_stream calls with same | done
    · rw [same]
      exact ⟨request, Or.inl reading, rfl, fun early => by simp [submits, early],
        fun _ complete => by simp [submits, complete]⟩
    · rw [done]
      exact ⟨request, Or.inr rfl, rfl, fun early => by simp [submits, early],
        fun _ complete => by simp [submits, complete]⟩

theorem trace_closed (port : UInt16) (request : s.requestComplete = true)
    (phase : s.Reading ∨ s.responseComplete = true) {rounds : List Round}
    (closed : ∀ round ∈ rounds, round.read.isClosed = true) :
    ∃ t submitted, trace (exec port) s rounds = some (t, submitted) ∧
      (s.upstreamHeadersComplete = false → payloads submitted.flatten = []) := by
  induction rounds generalizing s with
  | nil => exact ⟨s, [], rfl, fun _ => rfl⟩
  | cons round rounds ih =>
      obtain ⟨next, submits, taken, request', phase', headers, silent, -⟩ :=
        exec_closed port request phase (closed round (by simp))
      obtain ⟨t, submitted, rest, nothing⟩ :=
        ih request' phase' fun later member => closed later (by simp [member])
      refine ⟨t, submits :: submitted, by simp [trace, taken, rest], ?_⟩
      intro early
      rw [List.flatten_cons, payloads_append, silent early, nothing (headers.trans early)]
      rfl

/-- Once the upstream has closed, exactly the body has been submitted only if nothing has been, for
want of an end of the headers. -/
theorem delivered_iff_endless (port : UInt16) (awaiting : s.Awaiting) (r : ResponseRounds) :
    ∃ t submitted, trace (exec port) s (r.before ++ r.first :: r.after) = some (t, submitted) ∧
      (payloads submitted.flatten = bodyOf r.response ↔
        memmem r.response headerEnd = none) := by
  have reading : s.Reading :=
    ⟨awaiting.requestComplete, awaiting.responseComplete, awaiting.state⟩
  have start : s.Gathered [] [] :=
    Or.inl ⟨awaiting.headers, awaiting.buffer, rfl, by decide⟩
  obtain ⟨t, early, ran, readingT, gathered⟩ := trace_gathered port reading start r.stillOpen
  obtain ⟨u, atClose, taken, request, phase, headers, silent, buffered⟩ :=
    exec_closed port readingT.requestComplete (Or.inl readingT) (r.closed r.first (by simp))
  obtain ⟨v, late, rest, nothing⟩ :=
    trace_closed port request phase fun round (member : round ∈ r.after) =>
      r.closed round (List.mem_cons_of_mem _ member)
  refine ⟨v, early ++ atClose :: late, ?_, ?_⟩
  · rw [trace_append ran]
    simp [trace, taken, rest]
  have total : payloads (early ++ atClose :: late).flatten =
      payloads early.flatten ++ (payloads atClose ++ payloads late.flatten) := by
    simp [payloads]
  rw [List.nil_append, List.nil_append] at gathered
  rw [total]
  rcases gathered with ⟨incomplete, -, empty, absent⟩ | ⟨complete, tail, found, more⟩
  · have absent' : memmem r.response headerEnd = none := absent
    rw [empty, silent incomplete, nothing (headers.trans incomplete), bodyOf, absent']
    simp
  · have found' : memmem r.response headerEnd = some tail := found
    rw [buffered readingT complete, bodyOf, found']
    simp only [Option.elim_some, reduceCtorEq, iff_false]
    intro same
    have length := congrArg List.length same
    simp only [List.length_append] at length
    omega

def quietCalls : StreamCalls := ⟨true, true, true, true, none, .ok, true, false⟩

def smallResponse : ResponseRounds where
  before := [⟨quietCalls, [], .data
    ⟨ascii "HTTP/1.1 200 OK\r\n\r\nX", by decide, by decide⟩ ⟨true, true, true⟩⟩]
  first := ⟨quietCalls, [], .closed ⟨true, true, true⟩⟩
  after := []
  stillOpen := by simp [UpstreamRead.isClosed]
  closed := by simp [UpstreamRead.isClosed]

def awaitingStream : Http2Stream :=
  { fresh with
    requestComplete := true
    upstreamState := .readingResponse }

theorem delivered_iff_endless_small :
    ∃ t submitted, trace (exec 443) awaitingStream
        (smallResponse.before ++ smallResponse.first :: smallResponse.after) =
          some (t, submitted) ∧
      (payloads submitted.flatten = bodyOf smallResponse.response ↔
        memmem smallResponse.response headerEnd = none) :=
  delivered_iff_endless 443 ⟨rfl, rfl, rfl, rfl, rfl⟩ smallResponse

theorem body_sent_twice :
    (trace (exec 443) awaitingStream
        (smallResponse.before ++ smallResponse.first :: smallResponse.after)).map
      (fun run => payloads run.2.flatten) = some (ascii "XHTTP/1.1 200 OK\r\n\r\nX") ∧
    bodyOf smallResponse.response = ascii "X" ∧
    ascii "XHTTP/1.1 200 OK\r\n\r\nX" ≠ ascii "X" := by
  decide +kernel

end Http2Stream
end ProxyServer.Http2
