import ProxyServer.Request.HandleRequest
import ProxyServer.Upstream

/-!
# One HTTP/2 stream

What the callbacks of `nghttp2` write into an `http2_stream`, and what `http2_process_stream` makes
of it round by round. Allocations succeed, and a buffer is the part of it that is in use.
-/

namespace ProxyServer.Http2

/-! ## The request, as the callbacks deliver it -/

abbrev Field := Bytes × Bytes

inductive FrameType where
  | data
  | headers
  | goaway
  | other
  deriving DecidableEq, Repr

structure Frame where
  type : FrameType
  endStream : Bool
  endHeaders : Bool
  length : Nat
  deriving DecidableEq, Repr

def Frame.endsRequest (frame : Frame) : Bool :=
  match frame.type with
  | .data => frame.endStream
  | .headers => frame.endHeaders && (frame.length == 0 || frame.endStream)
  | .goaway | .other => false

inductive Callback where
  | beginHeaders
  | header (name value : Bytes)
  | frameRecv (frame : Frame)
  | dataChunk (endStream : Bool) (data : Bytes)
  deriving DecidableEq, Repr

/-- The fields that the callbacks write. `headers` and its length are only ever reset; the sizes are
those of the allocations. -/
structure StreamRequest where
  method : Option Bytes
  path : Option Bytes
  authority : Option Bytes
  requestBuf : Bytes
  requestBufSize : Nat
  headers : Bytes
  body : Bytes
  bodySize : Nat
  requestComplete : Bool
  deriving DecidableEq, Repr

namespace StreamRequest

def fresh : StreamRequest where
  method := none
  path := none
  authority := none
  requestBuf := []
  requestBufSize := 0
  headers := []
  body := []
  bodySize := 0
  requestComplete := false

def isPseudo (name : Bytes) : Bool := name.head? = some 58

def headerLine (field : Field) : Bytes := field.1 ++ ascii ": " ++ field.2 ++ ascii "\r\n"

def growBuffer (size used needed : Nat) : Nat :=
  if size < used + needed then used + needed + 256 else size

def onHeader (r : StreamRequest) (name value : Bytes) : StreamRequest :=
  if isPseudo name then
    if name = ascii ":method" then { r with method := some value }
    else if name = ascii ":path" then { r with path := some value }
    else if name = ascii ":authority" then { r with authority := some value }
    else r
  else
    { r with
      requestBufSize := growBuffer r.requestBufSize r.requestBuf.length
        (name.length + 2 + value.length + 2)
      requestBuf := r.requestBuf ++ headerLine (name, value) }

def onFrameRecv (r : StreamRequest) (frame : Frame) : StreamRequest :=
  { r with
    -- `needed` is added to a length that it has in it already.
    bodySize := if frame.type = .data then
        growBuffer r.bodySize r.body.length (r.body.length + frame.length)
      else r.bodySize
    requestComplete := r.requestComplete || frame.endsRequest }

def onDataChunk (r : StreamRequest) (endStream : Bool) (data : Bytes) : StreamRequest :=
  { r with
    bodySize := growBuffer r.bodySize r.body.length (r.body.length + data.length)
    body := r.body ++ data
    requestComplete := r.requestComplete || endStream }

def receive (r : StreamRequest) : Callback → StreamRequest
  | .beginHeaders => fresh
  | .header name value => r.onHeader name value
  | .frameRecv frame => r.onFrameRecv frame
  | .dataChunk endStream data => r.onDataChunk endStream data

/-- The strings are read up to a zero byte; one that is not there is read through a null pointer. -/
def build (r : StreamRequest) : Option Bytes := do
  let method ← r.method
  let path ← r.path
  let authority ← r.authority
  some (cstr method ++ ascii " " ++ cstr path ++ ascii " HTTP/1.1\r\n" ++
    ascii "Host: " ++ cstr authority ++ ascii "\r\n" ++ r.headers ++ ascii "\r\n" ++ r.body)

def totalLength (r : StreamRequest) : Option Nat := do
  let method ← r.method
  let path ← r.path
  let authority ← r.authority
  let requestLine := (cstr method).length + 1 + (cstr path).length + (ascii " HTTP/1.1\r\n").length
  let hostHeader := (ascii "Host: ").length + (cstr authority).length + (ascii "\r\n").length
  some (requestLine + hostHeader + r.headers.length + r.body.length + (ascii "\r\n").length)

theorem build_length (r : StreamRequest) : r.build.map List.length = r.totalLength := by
  unfold build totalLength
  cases r.method with
  | none => rfl
  | some method =>
      cases r.path with
      | none => rfl
      | some path =>
          cases r.authority with
          | none => rfl
          | some authority =>
              simp only [Option.bind_eq_bind, Option.bind_some, Option.map_some,
                List.length_append, Option.some.injEq, ascii, List.length_map]
              simp
              omega

end StreamRequest

def Callback.completes : Callback → Bool
  | .beginHeaders | .header _ _ => false
  | .frameRecv frame => frame.endsRequest
  | .dataChunk endStream _ => endStream

/-! ## The upstream -/

inductive UpstreamState where
  | opening (state : Http2UpstreamState)
  | readingResponse
  | done
  deriving DecidableEq

/-- Without `response_buf`, which is never used. -/
structure Http2Stream extends StreamRequest where
  responseComplete : Bool
  upstreamFd : Bool
  upstreamSsl : Bool
  upstreamState : UpstreamState
  upstreamRequest : Option Bytes
  upstreamRequestSent : Nat
  upstreamHeadersComplete : Bool
  upstreamStatusCode : Int
  upstreamResponseBuf : Bytes
  upstreamResponseSize : Nat
  deriving DecidableEq

inductive UpstreamWrite where
  /-- One byte more than `more`, or all that is left. -/
  | took (more : Nat)
  | again
  | failed
  deriving DecidableEq, Repr

structure ReadCalls where
  submitResponse : Bool
  submitTail : Bool
  submitRead : Bool
  deriving DecidableEq, Repr

structure CloseCalls where
  submitBuffered : Bool
  submitEnd : Bool
  sendPending : Bool
  deriving DecidableEq, Repr

inductive UpstreamRead where
  | data (piece : Segment 16384) (calls : ReadCalls)
  | again
  | closed (calls : CloseCalls)
  | failed

structure Round where
  opening : StreamCalls
  writes : List UpstreamWrite
  read : UpstreamRead

inductive Submission where
  | response (status : Bytes)
  | data (payload : Bytes) (endStream : Bool)
  deriving DecidableEq, Repr

structure RoundResult where
  stream : Http2Stream
  ret : Int
  submitted : List Submission

namespace Http2Stream

def fresh : Http2Stream where
  toStreamRequest := .fresh
  responseComplete := false
  upstreamFd := false
  upstreamSsl := false
  upstreamState := .opening .init
  upstreamRequest := none
  upstreamRequestSent := 0
  upstreamHeadersComplete := false
  upstreamStatusCode := 0
  upstreamResponseBuf := []
  upstreamResponseSize := 0

def receive (s : Http2Stream) (callback : Callback) : Http2Stream :=
  { s with
    toStreamRequest := s.toStreamRequest.receive callback
    responseComplete := if callback = .beginHeaders then false else s.responseComplete }

/-- Whether the check of `CONNECTING` is made and finds that the connection has failed, and so closes
it. The state stays as it is then. -/
def refused (calls : StreamCalls) : Bool := calls.getsockoptOk && calls.socketError

/-- `case HTTP2_UPSTREAM_STATE_INIT`. -/
def initUpstream (s : Http2Stream) (port : UInt16) (calls : StreamCalls) : RoundResult :=
  let step := http2StreamInit port calls
  let connected := match step.state with
    | .init => false
    | .connecting => true
    | .sendingRequest => !refused calls
  { stream := { s with
      upstreamFd := connected
      upstreamSsl := connected
      upstreamState := .opening step.state }
    ret := step.ret
    submitted := [] }

/-- `case HTTP2_UPSTREAM_STATE_CONNECTING`. `getsockopt` fails on a descriptor of -1. -/
def connectUpstream (s : Http2Stream) (calls : StreamCalls) : RoundResult :=
  let calls := { calls with getsockoptOk := calls.getsockoptOk && s.upstreamFd }
  let step := http2StreamConnecting .connecting calls
  { stream := { s with
      upstreamFd := s.upstreamFd && !refused calls
      upstreamSsl := s.upstreamSsl && !refused calls
      upstreamState := .opening step.state }
    ret := step.ret
    submitted := [] }

def sendLoop (total : Nat) : Nat → List UpstreamWrite → Nat × Option Int
  | sent, [] => if sent < total then (sent, some 0) else (sent, none)
  | sent, write :: writes =>
      if sent < total then
        match write with
        | .took more => sendLoop total (min (sent + more + 1) total) writes
        | .again => (sent, some 0)
        | .failed => (sent, some (-1))
      else (sent, none)

/-- `case HTTP2_UPSTREAM_STATE_SENDING_REQUEST`. -/
def sendRequest (s : Http2Stream) (writes : List UpstreamWrite) : Option RoundResult := do
  let request ← s.upstreamRequest.or s.build
  let s := { s with upstreamRequest := some request }
  if s.upstreamRequestSent < request.length ∧ s.upstreamSsl = false then none
  else
    match sendLoop request.length s.upstreamRequestSent writes with
    | (sent, some ret) => some ⟨{ s with upstreamRequestSent := sent }, ret, []⟩
    | (sent, none) =>
        some ⟨{ s with upstreamRequestSent := sent, upstreamState := .readingResponse }, 0, []⟩

def blankFrom (buf : Bytes) (start : Nat) : Option Nat :=
  ((cstr (buf.drop start)).findIdx? (· == 32)).map (start + ·)

def parseStatus (buf : Bytes) (pos : Nat) : Bytes × Option Int :=
  match memmem (buf.take pos) (ascii "\r\n") with
  | none => (buf, none)
  | some rest =>
      -- The terminator of the line is never taken back.
      let buf := buf.set (pos - rest.length) 0
      match blankFrom buf 0 with
      | none => (buf, none)
      | some space1 =>
          let cut := buf.set space1 0
          match blankFrom cut (space1 + 1) with
          | none => (cut, none)
          | some space2 => (buf, some (atoi (cstr ((cut.set space2 0).drop (space1 + 1)))))

def append (s : Http2Stream) (bytes : Bytes) : Http2Stream :=
  { s with
    upstreamResponseSize :=
      StreamRequest.growBuffer s.upstreamResponseSize s.upstreamResponseBuf.length bytes.length
    upstreamResponseBuf := s.upstreamResponseBuf ++ bytes }

def submitHeaders (s : Http2Stream) (tail : Bytes) (calls : ReadCalls) : RoundResult :=
  let pos := s.upstreamResponseBuf.length - tail.length - 4
  let parsed := parseStatus s.upstreamResponseBuf pos
  let s := { s with
    upstreamHeadersComplete := true
    upstreamStatusCode := parsed.2.getD s.upstreamStatusCode
    upstreamResponseBuf := parsed.1 }
  let response := .response (ascii (toString s.upstreamStatusCode))
  if calls.submitResponse = false then ⟨s, -1, [response]⟩
  else if tail ≠ [] ∧ calls.submitTail = false then ⟨s, -1, [response, .data tail false]⟩
  else
    ⟨{ s with upstreamResponseBuf := [] }, 0,
      response :: if tail = [] then [] else [.data tail false]⟩

def completeHeaders (s : Http2Stream) (calls : ReadCalls) : RoundResult :=
  if s.upstreamHeadersComplete = false ∧ 4 ≤ s.upstreamResponseBuf.length then
    match memmem s.upstreamResponseBuf (ascii "\r\n\r\n") with
    | some rest => s.submitHeaders (rest.drop 4) calls
    | none => ⟨s, 0, []⟩
  else ⟨s, 0, []⟩

def readData (s : Http2Stream) (bytes : Bytes) (calls : ReadCalls) : RoundResult :=
  let headers := (s.append bytes).completeHeaders calls
  if headers.ret ≠ 0 then headers
  else if headers.stream.upstreamHeadersComplete = false then headers
  else
    ⟨headers.stream, if calls.submitRead then 0 else -1,
      headers.submitted ++ [.data bytes false]⟩

def readClosed (s : Http2Stream) (calls : CloseCalls) : RoundResult :=
  let buffered := if s.upstreamResponseBuf ≠ [] ∧ s.upstreamHeadersComplete then
      [.data s.upstreamResponseBuf false]
    else []
  if buffered ≠ [] ∧ calls.submitBuffered = false then ⟨s, -1, buffered⟩
  else
    let submitted := buffered ++ [.data [] true]
    if calls.submitEnd = false then ⟨s, -1, submitted⟩
    else if calls.sendPending = false then ⟨s, -1, submitted⟩
    else ⟨{ s with responseComplete := true, upstreamState := .done }, 0, submitted⟩

/-- `case HTTP2_UPSTREAM_STATE_READING_RESPONSE`. -/
def readResponse (s : Http2Stream) : UpstreamRead → RoundResult
  | .data piece calls => s.readData piece.bytes calls
  | .again => ⟨s, 0, []⟩
  | .closed calls => s.readClosed calls
  | .failed => ⟨s, -1, []⟩

/-- `http2_process_stream`; it fails where it would follow a null pointer. -/
def process (s : Http2Stream) (port : UInt16) (round : Round) : Option RoundResult :=
  if s.requestComplete = false then some ⟨s, 0, []⟩
  else if s.responseComplete then some ⟨s, 0, []⟩
  else match s.upstreamState with
    | .opening .init => some (s.initUpstream port round.opening)
    | .opening .connecting => some (s.connectUpstream round.opening)
    | .opening .sendingRequest => s.sendRequest round.writes
    | .readingResponse => some (s.readResponse round.read)
    | .done => some
        ⟨{ s with
            upstreamSsl := false
            upstreamFd := false
            upstreamRequest := none
            upstreamRequestSent := 0 }, 0, []⟩

end Http2Stream
end ProxyServer.Http2
