import ProxyServer.Cache.Operations
import ProxyServer.Request.HandleRequest
import ProxyServer.Upstream

/-!
# The request thread

`THREAD_ROUTINE` step by step: a thread reads a request, has it checked, looks it up in the cache
and answers it from there or from the upstream. Authentication is enabled.
-/

namespace ProxyServer
open Lib

structure ParsedRequest where
  method : Bytes
  host : Option Bytes
  path : Option Bytes
  version : Bytes
  proxyAuthorization : Option Bytes

/-- `ParsedRequest_parse` on a new object. A request that it accepts has its path set. -/
structure Parser where
  parse : Bytes → Option ParsedRequest
  path_set : ∀ {request parsed}, parse request = some parsed → parsed.path.isSome = true

/-! ## Reading a request -/

/-- What the client sends, in the segments that `recv` returns, until it closes or `recv` fails. -/
structure ClientRequest (maxBytes : Nat) where
  segments : List Bytes
  nonempty : ∀ segment ∈ segments, segment ≠ []
  short : segments.flatten.length < maxBytes

def readHeaders (maxBytes : Nat) : Bytes → List Bytes → Bytes
  | buffer, [] => buffer
  | buffer, segment :: rest =>
      if buffer.length < maxBytes ∧ memmem buffer (ascii "\r\n\r\n") = none then
        readHeaders maxBytes (buffer ++ segment) rest
      else buffer

def rejected (buffer : Bytes) : Bool :=
  buffer.head? = some 0x16 || (ascii "PRI * HTTP/2.0\r\n\r\nSM\r\n\r\n").isPrefixOf buffer

def receiveRequest (maxBytes : Nat) : List Bytes → Option Bytes
  | [] => none
  | first :: rest => if rejected first then none else some (readHeaders maxBytes first rest)

/-- `BUFFER` as a string: it has `max_bytes` bytes, all of them zero at first. -/
def bufferString (maxBytes : Nat) (received : Bytes) : Bytes :=
  cstr (received ++ List.replicate (maxBytes - received.length) 0)

def requestString (received : Bytes) : Bytes := cstr (received ++ [0])

/-! ## Answering it -/

inductive Event where
  | auth (value : Option Bytes) (allowed : Bool)
  | domain (host : Bytes) (blocked : Bool)
  | url (path : Bytes) (blocked : Bool)
  | lookup (hit : Bool)
  | connect (sa : SockAddr)
  | cached (bytes : Bytes)
  | relay (bytes : Bytes)
  | reply (status : Nat)
  deriving DecidableEq

def ToClient.event : ToClient → Event
  | .upstream bytes => .relay bytes
  | .forbidden _ => .reply 403

inductive TunnelStep where
  | relay (bytes : Bytes)
  | stream (port : UInt16) (calls : StreamCalls)

def TunnelStep.events : TunnelStep → List Event
  | .relay bytes => [.relay bytes]
  | .stream port calls => (http2StreamInit port calls).connects.map .connect

structure Upstream (maxBytes : Nat) where
  addressFilter : AddressFilter
  contentFilter : ContentFilter
  addresses : Option (List Candidate)
  exchange : Exchange maxBytes
  handshakes : Bool
  tunnel : List TunnelStep

variable {maxBytes : Nat}

namespace Upstream

def handled (u : Upstream maxBytes) : Handled :=
  handleRequest u.contentFilter
    { u.exchange with connected := (connectEndServer u.addressFilter u.addresses).connected }

def getEvents (u : Upstream maxBytes) : List Event :=
  (connectEndServer u.addressFilter u.addresses).connects.map .connect ++
    u.handled.toClient.map ToClient.event ++ if u.handled.ret = -1 then [.reply 500] else []

def connectEvents (u : Upstream maxBytes) : List Event :=
  (handleConnect u.addresses).connects.map .connect ++
    if (handleConnect u.addresses).connected then
      .reply 200 :: if u.handshakes then u.tunnel.flatMap TunnelStep.events else [.reply 500]
    else [.reply 500]

end Upstream

def checkHttpVersion (clientVersion : Bytes) : Int :=
  if (ascii "HTTP/1.1").isPrefixOf clientVersion then 1
  else if (ascii "HTTP/1.0").isPrefixOf clientVersion then 1
  else -1

/-! ## One thread -/

inductive Stage where
  | receiving
  | authenticating
  | checkingDomain
  | checkingUrl
  | lookingUp
  /-- Between the two critical sections of `FindCache`. -/
  | purging
  | found (a : Addr)
  | serving (a : Addr) (size : Int) (pos : Nat)
  | missed
  | answering (events : List Event) (stored : Option (Bytes × Int))
  | finished

structure Thread where
  received : Bytes
  parsed : Option ParsedRequest
  stage : Stage
  log : List Event

inductive Act (maxBytes : Nat) where
  | receive (request : ClientRequest maxBytes) (malloc : Bool)
  | authenticate (allowed : Bool)
  | checkDomain (blocked : Bool)
  | checkUrl (blocked : Bool)
  | lookUp (now : Int)
  | purge
  /-- `stray` is what the entry reads as if it has been freed. -/
  | serve (stray : Entry)
  | dispatch (upstream : Upstream maxBytes)
  | emit
  | store (call : Cache.AddCall)

namespace Thread

def start : Thread := ⟨[], none, .receiving, []⟩

def request (th : Thread) : Bytes := requestString th.received

def goto (th : Thread) (stage : Stage) : Thread := { th with stage }

def record (th : Thread) (e : Event) (stage : Stage) : Thread :=
  { th with log := th.log ++ [e], stage }

def receive (parser : Parser) (th : Thread) (request : ClientRequest maxBytes) (malloc : Bool) :
    Thread :=
  match receiveRequest maxBytes request.segments with
  | none => th.goto .finished
  | some received =>
      if malloc = false then th.goto .finished
      else
        match parser.parse (bufferString maxBytes received) with
        | some p => { th with received, parsed := some p, stage := .authenticating }
        | none => { th with received, parsed := none, stage := .lookingUp }

def dropped (maxBytes : Nat) (received : Bytes) : Bool :=
  (ascii "GET /").isPrefixOf (bufferString maxBytes received) &&
    !(ascii "GET /http").isPrefixOf (bufferString maxBytes received)

def dispatch (th : Thread) (u : Upstream maxBytes) : Stage :=
  match th.parsed with
  | none => if dropped maxBytes th.received then .finished else .answering [.reply 400] none
  | some p =>
      if p.method = ascii "GET" then
        if p.host.isSome && p.path.isSome && checkHttpVersion p.version = 1 then
          .answering u.getEvents u.handled.stored
        else .answering [.reply 500] none
      else if p.method = ascii "CONNECT" then .answering u.connectEvents none
      else .answering [.reply 501] none

def serve (maxBytes : Nat) (cache : Cache) (th : Thread) (stray : Entry) : Option Thread :=
  match th.stage with
  | .found a => some (th.goto (.serving a ((cache.entry a).getD stray).length 0))
  | .serving a size pos =>
      if pos < size then
        let data := ((cache.entry a).getD stray).data.read cache.disk
        let next := min (pos + maxBytes) size.toNat
        some (th.record (.cached ((data.take next).drop pos)) (.serving a size next))
      else some (th.goto .finished)
  | _ => none

def act (parser : Parser) (cache : Cache) (th : Thread) :
    Act maxBytes → Option (Cache × Thread)
  | .receive request malloc =>
      match th.stage with
      | .receiving => some (cache, th.receive parser request malloc)
      | _ => none
  | .authenticate allowed =>
      match th.stage, th.parsed with
      | .authenticating, some p =>
          some (cache, th.record (.auth p.proxyAuthorization allowed)
            (if allowed then .checkingDomain else .answering [.reply 407] none))
      | _, _ => none
  | .checkDomain blocked =>
      match th.stage, th.parsed with
      | .checkingDomain, some p =>
          match p.host with
          | none => some (cache, th.goto .checkingUrl)
          | some host =>
              some (cache, th.record (.domain host blocked)
                (if blocked then .answering [.reply 403] none else .checkingUrl))
      | _, _ => none
  | .checkUrl blocked =>
      match th.stage, th.parsed with
      | .checkingUrl, some p =>
          match p.path with
          | none => some (cache, th.goto .lookingUp)
          | some path =>
              some (cache, th.record (.url path blocked)
                (if blocked then .answering [.reply 403] none else .lookingUp))
      | _, _ => none
  | .lookUp now =>
      match th.stage with
      | .lookingUp => do
          let (cache, result) ← cache.findLocked th.request now
          match result with
          | .miss => some (cache, th.record (.lookup false) .missed)
          | .expired => some (cache, th.goto .purging)
          | .hit a => some (cache, th.record (.lookup true) (.found a))
      | _ => none
  | .purge =>
      match th.stage with
      | .purging => do
          let cache ← cache.cachePurge th.request
          some (cache, th.record (.lookup false) .missed)
      | _ => none
  | .serve stray => (th.serve maxBytes cache stray).map (cache, ·)
  | .dispatch u =>
      match th.stage with
      | .missed => some (cache, th.goto (th.dispatch u))
      | _ => none
  | .emit =>
      match th.stage with
      | .answering (e :: events) stored => some (cache, th.record e (.answering events stored))
      | .answering [] none => some (cache, th.goto .finished)
      | _ => none
  | .store call =>
      match th.stage with
      | .answering [] (some (data, size)) => do
          let (cache, _) ← cache.addCache { call with data, size, url := th.request }
          some (cache, th.goto .finished)
      | _ => none

end Thread

/-! ## All threads -/

structure Server where
  cache : Cache
  thread : Nat → Thread

namespace Server

def init (policy : CacheEvictionPolicy) (cacheDir : Bytes) (disk : Disk) : Server :=
  ⟨Cache.cacheInit policy cacheDir disk, fun _ => .start⟩

def step (parser : Parser) (s : Server) (a : Nat × Act maxBytes) : Option Server :=
  ((s.thread a.1).act parser s.cache a.2).map fun r =>
    { cache := r.1, thread := Function.update s.thread a.1 r.2 }

end Server
end ProxyServer
