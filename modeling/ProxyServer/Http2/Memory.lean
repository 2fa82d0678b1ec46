import ProxyServer.Http2.Connection
import ProxyServer.Lib.Growable

/-!
# The memory of an HTTP/2 stream

The buffers that the callbacks and the reading of the response append to, each with its block.
Allocations succeed. The sums of lengths are those of bytes in memory, and do not wrap.
-/

namespace ProxyServer.Http2
open Lib.Block StreamRequest

structure StoredStream where
  streamId : Int
  method : Option Bytes
  path : Option Bytes
  authority : Option Bytes
  requestBuf : Growable
  body : Growable
  requestComplete : Bool
  responseComplete : Bool
  upstreamHeadersComplete : Bool
  upstreamStatusCode : Int
  upstreamResponse : Growable

namespace StoredStream

def fresh (streamId : Int) : StoredStream where
  streamId
  method := none
  path := none
  authority := none
  requestBuf := .empty
  body := .empty
  requestComplete := false
  responseComplete := false
  upstreamHeadersComplete := false
  upstreamStatusCode := 0
  upstreamResponse := .empty

def buffers (m : StoredStream) : List Growable := [m.requestBuf, m.body, m.upstreamResponse]

def onBeginHeaders (m : StoredStream) : StoredStream :=
  { m with
    requestBuf := .empty
    requestComplete := false
    method := none
    path := none
    authority := none
    body := .empty
    responseComplete := false }

def appendField (found : Nat → UInt8) (buf : Growable) (name value : Bytes) :
    Checked Growable := do
  let buf := buf.reserve 256 found (name.length + 2 + value.length + 2)
  let buf ← buf.append name
  let buf ← buf.append (ascii ":")
  let buf ← buf.append (ascii " ")
  let buf ← buf.append value
  let buf ← buf.append (ascii "\r")
  buf.append (ascii "\n")

def onHeader (found : Nat → UInt8) (m : StoredStream) (name value : Bytes) :
    Checked StoredStream := do
  if isPseudo name then
    return if name = ascii ":method" then { m with method := some value }
      else if name = ascii ":path" then { m with path := some value }
      else if name = ascii ":authority" then { m with authority := some value }
      else m
  else
    let requestBuf ← appendField found m.requestBuf name value
    return { m with requestBuf }

def reserveBody (found : Nat → UInt8) (m : StoredStream) (length : Nat) : Growable :=
  m.body.reserve 256 found (m.body.used + length)

def onFrameRecv (found : Nat → UInt8) (m : StoredStream) (frame : Frame) : StoredStream :=
  { m with
    body := if frame.type = .data then m.reserveBody found frame.length else m.body
    requestComplete := m.requestComplete || frame.endsRequest }

def onDataChunkRecv (found : Nat → UInt8) (m : StoredStream) (endStream : Bool) (data : Bytes) :
    Checked StoredStream := do
  let body ← (m.reserveBody found data.length).append data
  return { m with body, requestComplete := m.requestComplete || endStream }

def receive (found : Nat → UInt8) (m : StoredStream) : Callback → Checked StoredStream
  | .beginHeaders => return m.onBeginHeaders
  | .header name value => m.onHeader found name value
  | .frameRecv frame => return m.onFrameRecv found frame
  | .dataChunk endStream data => m.onDataChunkRecv found endStream data

def appendResponse (found : Nat → UInt8) (m : StoredStream) (bytes : Bytes) :
    Checked StoredStream := do
  let upstreamResponse ← (m.upstreamResponse.reserve 256 found bytes.length).append bytes
  return { m with upstreamResponse }

/-- The status line is terminated and cut in place. The buffer is emptied if the calls succeed. -/
def completeHeaders (m : StoredStream) (calls : ReadCalls) : StoredStream :=
  let buf := m.upstreamResponse
  if m.upstreamHeadersComplete = false ∧ 4 ≤ buf.used then
    match memmem buf.contents (ascii "\r\n\r\n") with
    | some rest =>
        let parsed := Http2Stream.parseStatus buf.contents (buf.used - rest.length)
        let submitted := calls.submitResponse && (rest.length == 4 || calls.submitTail)
        { m with
          upstreamHeadersComplete := true
          upstreamStatusCode := parsed.2.getD m.upstreamStatusCode
          upstreamResponse := { buf with
            block := parsed.1 ++ buf.block.drop buf.used
            used := if submitted then 0 else buf.used } }
    | none => m
  else m

def readData (found : Nat → UInt8) (m : StoredStream) (bytes : Bytes) (calls : ReadCalls) :
    Checked StoredStream := do
  let m ← m.appendResponse found bytes
  return m.completeHeaders calls

end StoredStream

theorem Http2Stream.receive_eq {s : Http2Stream} {callback : Callback}
    (other : callback ≠ .beginHeaders) :
    s.receive callback = { s with toStreamRequest := s.toStreamRequest.receive callback } := by
  rw [receive, if_neg other]

theorem Http2Stream.readData_completed (s : Http2Stream) (bytes : Bytes) (calls : ReadCalls) :
    (s.readData bytes calls).stream = ((s.append bytes).completeHeaders calls).stream := by
  rw [readData_eq rfl]
  split
  · rfl
  · split <;> rfl

theorem Http2Stream.submitHeaders_end (s : Http2Stream) {rest : Bytes} (long : 4 ≤ rest.length)
    (calls : ReadCalls) :
    let parsed := parseStatus s.upstreamResponseBuf (s.upstreamResponseBuf.length - rest.length)
    (s.submitHeaders (rest.drop 4) calls).stream = { s with
      upstreamHeadersComplete := true
      upstreamStatusCode := parsed.2.getD s.upstreamStatusCode
      upstreamResponseBuf := parsed.1.take
        (if calls.submitResponse && (rest.length == 4 || calls.submitTail) then 0
          else s.upstreamResponseBuf.length) } := by
  have pos : s.upstreamResponseBuf.length - (rest.drop 4).length - 4 =
      s.upstreamResponseBuf.length - rest.length := by
    rw [List.length_drop]
    omega
  have ends : rest.drop 4 ≠ [] ↔ rest.length ≠ 4 := by
    rw [ne_eq, List.drop_eq_nil_iff]
    omega
  unfold submitHeaders
  simp only [pos, ends]
  cases calls.submitResponse with
  | false => simp [parseStatus_length, List.take_of_length_le]
  | true =>
      cases calls.submitTail with
      | false =>
          by_cases ended : rest.length = 4
          · simp [ended]
          · simp [ended, parseStatus_length, List.take_of_length_le]
      | true => simp

namespace StoredStream

/-- The stream as its lengths and contents tell it, apart from the connection to the upstream. -/
structure Represents (m : StoredStream) (s : Http2Stream) : Prop where
  method : m.method = s.method
  path : m.path = s.path
  authority : m.authority = s.authority
  requestBuf : m.requestBuf.Holds s.requestBuf s.requestBufSize
  body : m.body.Holds s.body s.bodySize
  requestComplete : m.requestComplete = s.requestComplete
  responseComplete : m.responseComplete = s.responseComplete
  upstreamHeadersComplete : m.upstreamHeadersComplete = s.upstreamHeadersComplete
  upstreamStatusCode : m.upstreamStatusCode = s.upstreamStatusCode
  upstreamResponse : m.upstreamResponse.Holds s.upstreamResponseBuf s.upstreamResponseSize

variable {m : StoredStream} {s : Http2Stream} {found : Nat → UInt8} {contents : Bytes} {size : Nat}

theorem fresh_represents (streamId : Int) : (fresh streamId).Represents .fresh where
  method := rfl
  path := rfl
  authority := rfl
  requestBuf := Growable.holds_empty
  body := Growable.holds_empty
  requestComplete := rfl
  responseComplete := rfl
  upstreamHeadersComplete := rfl
  upstreamStatusCode := rfl
  upstreamResponse := Growable.holds_empty

theorem Represents.sound (represents : m.Represents s) : ∀ b ∈ m.buffers, b.Sound := by
  simp only [buffers, List.mem_cons, List.not_mem_nil, or_false]
  rintro b (rfl | rfl | rfl)
  · exact represents.requestBuf.sound
  · exact represents.body.sound
  · exact represents.upstreamResponse.sound

theorem appendField_holds {buf : Growable} (holds : buf.Holds contents size) (name value : Bytes) :
    ∃ d, appendField found buf name value = .ok d ∧
      d.Holds (contents ++ headerLine (name, value))
        (growBuffer size contents.length (name.length + 2 + value.length + 2)) := by
  have whole : name ++ (ascii ":" ++ (ascii " " ++ (value ++ (ascii "\r" ++ ascii "\n")))) =
      headerLine (name, value) := by
    simp [headerLine, ascii]
  have length : (headerLine (name, value)).length = name.length + 2 + value.length + 2 := by
    rw [← whole]
    simp [ascii]
    omega
  obtain ⟨d, appended, after⟩ :=
    @Growable.Holds.extend buf 256 _ found (headerLine (name, value)) _ _ holds length.le
  refine ⟨d, ?_, after⟩
  rw [← appended, ← whole]
  simp only [appendField, ← Growable.append_append]

def Becomes (m : StoredStream) (ran : Checked StoredStream) (s : Http2Stream) : Prop :=
  ∃ d, ran = .ok d ∧ d.streamId = m.streamId ∧ d.Represents s

theorem Represents.onBeginHeaders (represents : m.Represents s) :
    m.onBeginHeaders.Represents (s.receive .beginHeaders) :=
  { represents with
    method := rfl
    path := rfl
    authority := rfl
    requestBuf := Growable.holds_empty
    body := Growable.holds_empty
    requestComplete := rfl
    responseComplete := rfl }

theorem Represents.onHeader (represents : m.Represents s) (name value : Bytes) :
    m.Becomes (m.onHeader found name value) (s.receive (.header name value)) := by
  rw [Http2Stream.receive_eq (by simp)]
  unfold StreamRequest.receive StreamRequest.onHeader
  by_cases pseudo : isPseudo name
  · rw [StoredStream.onHeader, if_pos pseudo]
    refine ⟨_, rfl, by split_ifs <;> rfl, ?_⟩
    simp only [if_pos pseudo]
    split_ifs
    · exact { represents with method := rfl }
    · exact { represents with path := rfl }
    · exact { represents with authority := rfl }
    · exact represents
  · obtain ⟨requestBuf, appended, holds⟩ :=
      @appendField_holds found _ _ _ represents.requestBuf name value
    rw [StoredStream.onHeader, if_neg pseudo, appended]
    simp only [if_neg pseudo]
    exact ⟨{ m with requestBuf }, rfl, rfl, { represents with requestBuf := holds }⟩

theorem Represents.reserveBody (represents : m.Represents s) (length : Nat) :
    (m.reserveBody found length).Holds s.body
      (growBuffer s.bodySize s.body.length (s.body.length + length)) := by
  rw [StoredStream.reserveBody, represents.body.used]
  exact represents.body.reserve

theorem Represents.onFrameRecv (represents : m.Represents s) (frame : Frame) :
    (m.onFrameRecv found frame).Represents (s.receive (.frameRecv frame)) := by
  rw [Http2Stream.receive_eq (by simp)]
  refine { represents with
    body := ?_
    requestComplete := congrArg (· || frame.endsRequest) represents.requestComplete }
  unfold StoredStream.onFrameRecv StreamRequest.receive StreamRequest.onFrameRecv
  simp only
  split_ifs
  · exact represents.reserveBody frame.length
  · exact represents.body

theorem Represents.onDataChunkRecv (represents : m.Represents s) (endStream : Bool) (data : Bytes) :
    m.Becomes (m.onDataChunkRecv found endStream data) (s.receive (.dataChunk endStream data)) := by
  have enough : data.length ≤ m.body.used + data.length := Nat.le_add_left _ _
  obtain ⟨body, appended, holds⟩ :=
    @Growable.Holds.extend _ 256 _ found data _ _ represents.body enough
  rw [represents.body.used] at holds
  rw [Http2Stream.receive_eq (by simp), StoredStream.onDataChunkRecv, StoredStream.reserveBody,
    appended]
  exact ⟨{ m with body, requestComplete := m.requestComplete || endStream }, rfl, rfl,
    { represents with
      body := holds
      requestComplete := congrArg (· || endStream) represents.requestComplete }⟩

theorem Represents.receive (represents : m.Represents s) (callback : Callback) :
    m.Becomes (m.receive found callback) (s.receive callback) := by
  cases callback with
  | beginHeaders => exact ⟨_, rfl, rfl, represents.onBeginHeaders⟩
  | header name value => exact represents.onHeader name value
  | frameRecv frame => exact ⟨_, rfl, rfl, represents.onFrameRecv frame⟩
  | dataChunk endStream data => exact represents.onDataChunkRecv endStream data

theorem Represents.appendResponse (represents : m.Represents s) (bytes : Bytes) :
    m.Becomes (m.appendResponse found bytes) (s.append bytes) := by
  obtain ⟨upstreamResponse, appended, holds⟩ :=
    @Growable.Holds.extend _ 256 _ found bytes _ _ represents.upstreamResponse le_rfl
  refine ⟨{ m with upstreamResponse }, ?_, rfl, { represents with upstreamResponse := holds }⟩
  rw [StoredStream.appendResponse, appended]
  rfl

theorem Represents.completeHeaders (represents : m.Represents s) (calls : ReadCalls) :
    (m.completeHeaders calls).streamId = m.streamId ∧
      (m.completeHeaders calls).Represents (s.completeHeaders calls).stream := by
  have holds := represents.upstreamResponse
  unfold StoredStream.completeHeaders Http2Stream.completeHeaders
  simp only [holds.used, holds.contents, represents.upstreamHeadersComplete]
  split_ifs with looks
  · cases found : memmem s.upstreamResponseBuf (ascii "\r\n\r\n") with
    | none => exact ⟨rfl, represents⟩
    | some rest =>
        obtain ⟨long, -⟩ := Http2Stream.headerEnd_length found
        refine ⟨rfl, ?_⟩
        simp only [s.submitHeaders_end long calls, represents.upstreamStatusCode]
        refine { represents with
          upstreamHeadersComplete := rfl
          upstreamStatusCode := rfl
          upstreamResponse := ?_ }
        rw [← holds.used]
        have inside := holds.used.le
        refine holds.rewrite (Http2Stream.parseStatus_length _ _) ?_
        split_ifs
        · exact Nat.zero_le _
        · exact inside
  · exact ⟨rfl, represents⟩

theorem Represents.readData (represents : m.Represents s) (bytes : Bytes) (calls : ReadCalls) :
    m.Becomes (m.readData found bytes calls) (s.readData bytes calls).stream := by
  obtain ⟨d, appended, same, after⟩ : m.Becomes (m.appendResponse found bytes) (s.append bytes) :=
    represents.appendResponse bytes
  obtain ⟨kept, complete⟩ := after.completeHeaders calls
  rw [Http2Stream.readData_completed, StoredStream.readData, appended]
  exact ⟨_, rfl, kept.trans same, complete⟩

end StoredStream

end ProxyServer.Http2
