import ProxyServer.Http2.Cleanup
import ProxyServer.Lib.Slots

/-!
# The resources of an HTTP/2 connection

What the callbacks and the rounds of a connection allocate, open, use and give back, and what
`http2_cleanup_context` gives back in the end; every allocation succeeds. Of the data that are
submitted `nghttp2` keeps no more than a pointer, which `data_read_callback` follows when they are
sent. That is told apart from the rest, by `Source.read`.
-/

namespace ProxyServer.Http2
open Lib

inductive StreamPart where
  | self
  | method
  | path
  | authority
  | requestBuf
  | body
  | upstreamRequest
  | upstreamResponseBuf
  | upstreamFd
  | upstreamSsl
  deriving DecidableEq

inductive RoundPart where
  | readBuf
  | tail
  | payload
  /-- The payloads on the stack of `http2_process_stream`. -/
  | frame
  deriving DecidableEq

inductive Slot where
  | conn
  | session
  | streams
  | stream (i : Nat) (part : StreamPart)
  | round (n : Nat) (part : RoundPart)
  deriving DecidableEq

/-- A buffer is marked with its size, which is another each time it is reallocated. -/
abbrev Touches := List (Touch (Slot × Nat))

def mark (size : Nat) : Option Nat := if size = 0 then none else some size

def present (isThere : Bool) : Option Nat := if isThere then some 0 else none

namespace Http2Stream

def slots (s : Http2Stream) : StreamPart → Option Nat
  | .self => some 0
  | .method => present s.method.isSome
  | .path => present s.path.isSome
  | .authority => present s.authority.isSome
  | .requestBuf => mark s.requestBufSize
  | .body => mark s.bodySize
  | .upstreamRequest => present s.upstreamRequest.isSome
  | .upstreamResponseBuf => mark s.upstreamResponseSize
  | .upstreamFd => present s.upstreamFd
  | .upstreamSsl => present s.upstreamSsl

def drops (s : Http2Stream) (i : Nat) (parts : List StreamPart) : Touches :=
  parts.flatMap fun part => drop (.stream i part) (s.slots part)

def replaces (s : Http2Stream) (i : Nat) (part : StreamPart) : Touches :=
  drop (.stream i part) (s.slots part) ++ [.acquire (.stream i part, 0)]

end Http2Stream

def regrow (slot : Slot) (size used needed : Nat) : Touches :=
  if size < used + needed then drop slot (mark size) ++ [.acquire (slot, used + needed + 256)]
  else []

def Http2Conn.getStreamTouches (c : Http2Conn) (id : Nat) : Touches :=
  .use (.conn, 0) ::
    (if c.maxStreams < id + 1 then
      drop .streams (mark c.maxStreams) ++ [.acquire (.streams, id + 1)]
    else []) ++
    .use (.streams, max c.maxStreams (id + 1)) ::
    if (c.streams id).isNone then [.acquire (.stream id .self, 0)] else []

def Callback.touches (i : Nat) (s : Http2Stream) : Callback → Touches
  | .beginHeaders =>
      .use (.stream i .self, 0) :: s.drops i [.requestBuf, .method, .path, .authority, .body]
  | .header name value =>
      .use (.stream i .self, 0) ::
        if StreamRequest.isPseudo name then
          if name = ascii ":method" then s.replaces i .method
          else if name = ascii ":path" then s.replaces i .path
          else if name = ascii ":authority" then s.replaces i .authority
          else []
        else
          let needed := name.length + 2 + value.length + 2
          regrow (.stream i .requestBuf) s.requestBufSize s.requestBuf.length needed ++
            [.use (.stream i .requestBuf,
              StreamRequest.growBuffer s.requestBufSize s.requestBuf.length needed)]
  | .frameRecv frame =>
      .use (.stream i .self, 0) ::
        if frame.type = .data then
          regrow (.stream i .body) s.bodySize s.body.length (s.body.length + frame.length)
        else []
  | .dataChunk _ data =>
      let needed := s.body.length + data.length
      .use (.stream i .self, 0) ::
        regrow (.stream i .body) s.bodySize s.body.length needed ++
        if data = [] then []
        else [.use (.stream i .body, StreamRequest.growBuffer s.bodySize s.body.length needed)]

/-- What `nghttp2` holds a pointer to, once it has taken what was submitted. -/
inductive Source where
  | tail (n i size : Nat)
  | piece (n : Nat)
  | stack (n : Nat) (data : Option (Slot × Nat))
  deriving DecidableEq

namespace Source

def payload : Source → Slot × Nat
  | tail n _ _ => (.round n .tail, 0)
  | piece n => (.round n .payload, 0)
  | stack n _ => (.round n .frame, 0)

def data : Source → Option (Slot × Nat)
  | tail _ i size => some (.stream i .upstreamResponseBuf, size)
  | piece n => some (.round n .readBuf, 0)
  | stack _ data => data

def onHeap : Source → Bool
  | tail _ _ _ => true
  | piece _ => true
  | stack _ _ => false

def number : Source → Nat
  | tail n _ _ => n
  | piece n => n
  | stack n _ => n

def keeps (n : Nat) (part : RoundPart) (source : Source) : Bool :=
  source.onHeap && source.payload.1 = .round n part

def read (source : Source) : Touches := .use source.payload :: source.data.toList.map .use

end Source

structure Effects where
  touches : Touches
  sources : List Source

namespace Http2Stream

def connecting (s : Http2Stream) (i : Nat) (calls : StreamCalls) : Touches :=
  if !calls.getsockoptOk then []
  else if calls.socketError then s.drops i [.upstreamSsl, .upstreamFd]
  else [.use (.stream i .upstreamSsl, 0)]

def initTouches (i : Nat) (calls : StreamCalls) : Touches :=
  let closeFd : Touches := [.release (.stream i .upstreamFd, 0)]
  let freeBoth : Touches := .release (.stream i .upstreamSsl, 0) :: closeFd
  if !calls.socketOk then []
  else
    .acquire (.stream i .upstreamFd, 0) ::
      if !calls.getFlagsOk then closeFd
      else if !calls.setFlagsOk then closeFd
      else if !calls.sslOk then closeFd
      else
        .acquire (.stream i .upstreamSsl, 0) ::
          match calls.hostent with
          | none => freeBoth
          | some _ =>
              match calls.connect with
              | .failed => freeBoth
              | .inProgress => []
              | .ok =>
                  .use (.stream i .upstreamSsl, 0) ::
                    if !calls.getsockoptOk then []
                    else if calls.socketError then freeBoth
                    else [.use (.stream i .upstreamSsl, 0)]

def sendTouches (i total : Nat) : Nat → List UpstreamWrite → Touches
  | sent, [] => if sent < total then oneWrite else []
  | sent, write :: writes =>
      if sent < total then
        match write with
        | .took more => oneWrite ++ sendTouches i total (min (sent + more + 1) total) writes
        | .again => oneWrite
        | .failed => oneWrite
      else []
where
  oneWrite : Touches := [.use (.stream i .upstreamSsl, 0), .use (.stream i .upstreamRequest, 0)]

def buildTouches (s : Http2Stream) (i : Nat) : Touches :=
  [.use (.stream i .method, 0), .use (.stream i .path, 0), .use (.stream i .authority, 0),
      .acquire (.stream i .upstreamRequest, 0)] ++
    if s.body = [] then [] else [.use (.stream i .body, s.bodySize)]

def sendRequestTouches (s : Http2Stream) (i : Nat) (writes : List UpstreamWrite) : Touches :=
  (if s.upstreamRequest = none then s.buildTouches i else []) ++
    sendTouches i ((s.upstreamRequest.or s.build).getD []).length s.upstreamRequestSent writes

def hasTail : Submission → Bool
  | .response _ => false
  | .data _ _ => true

def dataEffects (s : Http2Stream) (i n : Nat) (bytes : Bytes) (calls : ReadCalls) : Effects :=
  let size := (s.append bytes).upstreamResponseSize
  let headers := (s.append bytes).completeHeaders calls
  let tailed := headers.submitted.any hasTail
  let complete := headers.stream.upstreamHeadersComplete
  let appended :=
    regrow (.stream i .upstreamResponseBuf) s.upstreamResponseSize s.upstreamResponseBuf.length
        bytes.length ++
      [.use (.stream i .upstreamResponseBuf, size), .use (.round n .readBuf, 0)] ++
      if tailed then [.acquire (.round n .tail, 0)] else []
  if headers.ret ≠ 0 then
    ⟨appended ++ .release (.round n .readBuf, 0) ::
      if tailed then [.release (.round n .tail, 0)] else [], []⟩
  else
    let tails := if tailed then [Source.tail n i size] else []
    if !complete then ⟨appended ++ [.release (.round n .readBuf, 0)], tails⟩
    else if calls.submitRead then
      ⟨appended ++ [.acquire (.round n .payload, 0), .release (.round n .readBuf, 0)],
        tails ++ [.piece n]⟩
    else
      ⟨appended ++ [.acquire (.round n .payload, 0), .release (.round n .readBuf, 0),
        .release (.round n .payload, 0)], tails⟩

/-- What `http2_send_pending` has `data_read_callback` read before the round is over is apart, as in
any other round. -/
def closedEffects (s : Http2Stream) (i n : Nat) (calls : CloseCalls) : Effects :=
  let buffered := s.upstreamResponseBuf ≠ [] ∧ s.upstreamHeadersComplete
  let touches := [.release (.round n .readBuf, 0), .acquire (.round n .frame, 0),
    .release (.round n .frame, 0)]
  if buffered ∧ calls.submitBuffered = false then ⟨touches, []⟩
  else
    let rest := if buffered then
        [Source.stack n (some (.stream i .upstreamResponseBuf, s.upstreamResponseSize))]
      else []
    ⟨touches, if calls.submitEnd then rest ++ [.stack n none] else rest⟩

def readEffects (s : Http2Stream) (i n : Nat) (read : UpstreamRead) : Effects :=
  let start : Touches := [.acquire (.round n .readBuf, 0), .use (.stream i .upstreamSsl, 0)]
  let effects := match read with
    | .data piece calls => s.dataEffects i n piece.bytes calls
    | .closed calls => s.closedEffects i n calls
    | .again => ⟨[.release (.round n .readBuf, 0)], []⟩
    | .failed => ⟨[.release (.round n .readBuf, 0)], []⟩
  { effects with touches := start ++ effects.touches }

def effects (s : Http2Stream) (i n : Nat) (round : Round) : Effects :=
  match s.upstreamState with
  | .opening .init => ⟨initTouches i round.opening, []⟩
  | .opening .connecting =>
      let calls := { round.opening with
        getsockoptOk := round.opening.getsockoptOk && s.upstreamFd }
      ⟨s.connecting i calls, []⟩
  | .opening .sendingRequest => ⟨s.sendRequestTouches i round.writes, []⟩
  | .readingResponse => s.readEffects i n round.read
  | .done => ⟨s.drops i [.upstreamSsl, .upstreamFd, .upstreamRequest], []⟩

def free (s : Http2Stream) (i : Nat) : Touches :=
  .use (.stream i .self, 0) ::
    s.drops i [.upstreamSsl, .upstreamFd, .upstreamRequest, .upstreamResponseBuf, .method, .path,
      .authority, .requestBuf, .body] ++
    [.release (.stream i .self, 0)]

end Http2Stream

namespace Http2Conn

def effects (c : Http2Conn) (rounds : Nat → Round) (n i : Nat) : Effects :=
  let start : Touches := [.use (.conn, 0), .use (.streams, c.maxStreams)]
  match c.streams i with
  | none => ⟨start, []⟩
  | some s =>
      let start := start ++ [.use (.stream i .self, 0)]
      if s.requestComplete && !s.responseComplete then
        let effects := s.effects i n (rounds i)
        { effects with touches := start ++ effects.touches }
      else ⟨start, []⟩

def cleanup (c : Http2Conn) : Touches :=
  [.use (.conn, 0), .use (.session, 0), .release (.session, 0)] ++
    (List.range c.maxStreams).flatMap (fun i =>
      .use (.streams, c.maxStreams) :: (c.streams i).elim [] (·.free i)) ++
    drop .streams (mark c.maxStreams) ++ [.release (.conn, 0)]

end Http2Conn

structure Tracked where
  conn : Http2Conn
  rounds : Nat
  sources : List Source
  trace : Touches

namespace Tracked

def init (targetPort : UInt16) : Tracked where
  conn := .init targetPort
  rounds := 0
  sources := []
  trace := [.acquire (.conn, 0), .acquire (.session, 0)]

def processOne (rounds : Nat → Round) (t : Tracked) (i : Nat) : Option Tracked :=
  (t.conn.processOne rounds i).map fun conn =>
    let effects := t.conn.effects rounds t.rounds i
    { conn
      rounds := t.rounds + 1
      sources := t.sources ++ effects.sources
      trace := t.trace ++ effects.touches }

def step (t : Tracked) : ConnEvent → Option Tracked
  | .callback id callback => some
      { t with
        conn := t.conn.receive id callback
        trace := t.trace ++ t.conn.getStreamTouches id ++ callback.touches id (t.conn.before id) }
  | .process rounds =>
      if t.conn.activeStreamsCount > 0 then
        (List.range t.conn.maxStreams).foldlM (processOne rounds) t
      else some t

end Tracked

def Http2Conn.place (c : Http2Conn) (sources : List Source) : Slot → Option Nat
  | .conn => some 0
  | .session => some 0
  | .streams => mark c.maxStreams
  | .stream i part => (c.streams i).bind (·.slots part)
  | .round n part => present (sources.any (·.keeps n part))

end ProxyServer.Http2
