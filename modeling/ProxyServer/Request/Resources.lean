import ProxyServer.Lib.Owners
import ProxyServer.Request.Connections
import ProxyServer.Request.Parsing

/-!
# The resources of a request thread

What `THREAD_ROUTINE` and the functions that it calls allocate, open, use and give back on each of
their paths. The allocations that are not checked succeed.
-/

namespace ProxyServer.Connections
open Lib

inductive ThreadPart where
  | socket
  | buffer
  | request
  /-- The object with its `buf`, its path and its headers. -/
  | parsed
  | protocol
  | host
  | port
  /-- The `BUFFER` of `HandleRequest`. -/
  | sendBuffer
  | response
  | addresses
  | endSocket
  | clientSsl
  | serverSsl
  deriving DecidableEq

abbrev ThreadTouches := List (Touch (ThreadPart × Nat))

/-! ## Parsing -/

/-- The strings of the object that have blocks of their own; a host can also lie in `buf`. -/
def mallocs (pr : ProxyParse.ParsedRequest) : ThreadPart → Bool
  | .protocol => pr.protocol.isSome
  | .host => match pr.host with
    | some (.owned _) => true
    | _ => false
  | .port => match pr.port with
    | .owned _ => true
    | _ => false
  | _ => false

/-- What `ParsedRequest_parse` leaves allocated beyond the object, also when it fails. -/
def parseTouches (pr : ProxyParse.ParsedRequest) : ThreadTouches :=
  (([.protocol, .host, .port] : List ThreadPart).filter (mallocs pr)).map fun part =>
    .acquire (part, 0)

/-! ## Connecting -/

def tryTouches (skip : SockAddr → Bool) : List Candidate → ThreadTouches
  | [] => []
  | rp :: rest =>
      .use (.addresses, 0) ::
        if skip rp.addr then tryTouches skip rest
        else if rp.socketOk = false then tryTouches skip rest
        else .acquire (.endSocket, 0) ::
          if rp.connectOk then [] else .release (.endSocket, 0) :: tryTouches skip rest

def connectTouches (skip : SockAddr → Bool) : Option (List Candidate) → ThreadTouches
  | none => []
  | some res => .acquire (.addresses, 0) :: tryTouches skip res ++ [.release (.addresses, 0)]

/-! ## `HandleRequest` -/

variable {maxBytes : Nat}

def receiveTouches (f : ContentFilter) :
    Nat → Bytes → List (Chunk maxBytes) → ThreadTouches × Nat
  | capacity, _, [] => ([.use (.endSocket, 0), .use (.sendBuffer, 0)], capacity)
  | capacity, response, chunk :: rest =>
      let needed := response.length + chunk.bytes.length + 1
      let received : ThreadTouches := [.use (.endSocket, 0), .use (.sendBuffer, 0)]
      if capacity < needed ∧ chunk.realloc = false then (received, capacity)
      else
        let grown : ThreadTouches := if capacity < needed then
            [.release (.response, capacity), .acquire (.response, capacity * 2)]
          else []
        let capacity := grow capacity needed
        let response := response ++ chunk.bytes
        let stored := received ++ grown ++ [.use (.response, capacity), .use (.sendBuffer, 0)]
        if headersComplete response && contentBlocked f response then (stored, capacity)
        else
          match chunk.sent with
          | none => (stored ++ [.use (.socket, 0)], capacity)
          | some _ =>
              let later := receiveTouches f capacity response rest
              (stored ++ .use (.socket, 0) :: later.1, later.2)

def handleRequestTouches (u : Upstream maxBytes) : ThreadTouches :=
  let skip := filterIsIpBlocked u.addressFilter
  [.acquire (.sendBuffer, 0), .use (.parsed, 0)] ++ connectTouches skip u.addresses ++
    if (connectEndServer u.addressFilter u.addresses).connected = false then []
    else
      [.use (.endSocket, 0), .use (.sendBuffer, 0)] ++
        if u.exchange.requestSent = false then [.release (.endSocket, 0)]
        else if u.exchange.malloc = false then [.release (.endSocket, 0)]
        else
          let loop := receiveTouches u.contentFilter maxBytes [] u.exchange.chunks
          .acquire (.response, maxBytes) :: loop.1 ++ .use (.response, loop.2) ::
            (if u.handled.stored = none then .use (.socket, 0) else .use (.request, 0)) ::
            [.release (.sendBuffer, 0), .release (.response, loop.2), .release (.endSocket, 0)]

/-! ## `HandleConnect` -/

inductive Handshakes where
  | acceptFailed
  | connectFailed
  | http2 (initialised : Bool)
  | relay

/-- `handle_http2_connection` frees both ends, unless its session is not set up. -/
def handshakesTouches : Handshakes → ThreadTouches
  | .acceptFailed => [.use (.clientSsl, 0), .release (.clientSsl, 0), .release (.serverSsl, 0)]
  | .connectFailed => [.use (.clientSsl, 0), .use (.serverSsl, 0), .release (.clientSsl, 0),
      .release (.serverSsl, 0)]
  | .http2 false => [.use (.clientSsl, 0), .use (.serverSsl, 0)]
  | .http2 true => [.use (.clientSsl, 0), .use (.serverSsl, 0), .release (.clientSsl, 0),
      .release (.serverSsl, 0)]
  | .relay => [.use (.clientSsl, 0), .use (.serverSsl, 0), .use (.socket, 0), .use (.endSocket, 0),
      .release (.clientSsl, 0), .release (.serverSsl, 0)]

def handleConnectTouches (res : Option (List Candidate)) (handshakes : Handshakes) :
    ThreadTouches :=
  .use (.parsed, 0) :: connectTouches (fun _ => false) res ++
    if (ProxyServer.handleConnect res).connected = false then []
    else
      [.use (.socket, 0), .acquire (.clientSsl, 0), .acquire (.serverSsl, 0),
          .use (.endSocket, 0)] ++
        handshakesTouches handshakes ++ [.release (.endSocket, 0)]

def Handshakes.tunnel (res : Option (List Candidate)) (handshakes : Handshakes) : Tunnel :=
  if (ProxyServer.handleConnect res).connected = false then .failed
  else match handshakes with
    | .acceptFailed => .failed
    | .connectFailed => .failed
    | .http2 initialised => .http2 initialised
    | .relay => .relayed

def Tunnel.unset : Tunnel → Bool
  | .http2 false => true
  | _ => false

def Handshakes.unset : Handshakes → Bool
  | .http2 false => true
  | _ => false

theorem Handshakes.unset_tunnel (res : Option (List Candidate)) (handshakes : Handshakes) :
    (handshakes.tunnel res).unset =
      ((ProxyServer.handleConnect res).connected && handshakes.unset) := by
  unfold tunnel
  cases (ProxyServer.handleConnect res).connected with
  | false => rfl
  | true =>
      cases handshakes with
      | acceptFailed => rfl
      | connectFailed => rfl
      | relay => rfl
      | http2 initialised => cases initialised <;> rfl

/-! ## `THREAD_ROUTINE` -/

def keep (lost : Bool) : Option Nat := if lost then some 0 else none

def slots (strings : ThreadPart → Bool) (own buffer ssl : Option Nat) :
    ThreadPart → Option Nat
  | .socket | .buffer | .request | .parsed => own
  | .protocol => keep (strings .protocol)
  | .host => keep (strings .host)
  | .port => keep (strings .port)
  | .sendBuffer => buffer
  | .clientSsl | .serverSsl => ssl
  | .response | .addresses | .endSocket => none

def opened : ThreadPart → Option Nat
  | .socket => some 0
  | _ => none

structure Conversation (maxBytes : Nat) extends Connection where
  object : ProxyParse.ParsedRequest
  parsed_eq : ∀ p, parsed = some p → p = .ofObject object
  upstream : Upstream maxBytes
  handshakes : Handshakes
  handled_eq : handled = upstream.handled.ret
  tunnel_eq : tunnel = handshakes.tunnel upstream.addresses

namespace Conversation

variable (c : Conversation maxBytes)

def onSocket : ThreadTouches := [.use (.socket, 0)]

def logged : ThreadTouches := [.use (.parsed, 0)]

def dispatchTouches (p : ParsedRequest) : ThreadTouches :=
  if p.method = ascii "GET" then
    if p.host.isSome && p.path.isSome && checkHttpVersion p.version = 1 then
      handleRequestTouches c.upstream ++ if c.handled = -1 then onSocket ++ logged else logged
    else onSocket ++ logged
  else if p.method = ascii "CONNECT" then
    handleConnectTouches c.upstream.addresses c.handshakes ++
      if (handleConnect c.tunnel).1 = -1 then onSocket ++ logged else logged
  else onSocket ++ logged

def refuseTouches : ThreadTouches :=
  onSocket ++ logged ++ [.release (.parsed, 0), .release (.buffer, 0), .release (.request, 0),
    .release (.socket, 0)]

def finishTouches : ThreadTouches :=
  onSocket ++ onSocket ++ [.release (.socket, 0), .release (.buffer, 0), .release (.request, 0)]

def answerTouches (received : Bytes) : ThreadTouches :=
  match c.parsed with
  | some p =>
      .use (.parsed, 0) ::
        if c.enableAuth && !c.authorized then refuseTouches
        else if p.host.isSome && c.domainBlocked then refuseTouches
        else if p.path.isSome && c.urlBlocked then refuseTouches
        else if c.cached then
          .use (.request, 0) :: onSocket ++ logged ++ .release (.parsed, 0) :: finishTouches
        else
          .use (.request, 0) :: .use (.buffer, 0) :: .use (.parsed, 0) :: c.dispatchTouches p ++
            .release (.parsed, 0) :: finishTouches
  | none =>
      if c.cached then .use (.request, 0) :: onSocket ++ .release (.parsed, 0) :: finishTouches
      else if Thread.dropped maxBytes received then
        [.use (.request, 0), .use (.buffer, 0), .release (.socket, 0), .release (.buffer, 0),
          .release (.request, 0), .release (.parsed, 0)]
      else
        .use (.request, 0) :: .use (.buffer, 0) :: onSocket ++ .release (.parsed, 0) ::
          finishTouches

def touches : ThreadTouches :=
  onSocket ++ [.acquire (.buffer, 0), .use (.socket, 0), .use (.buffer, 0)] ++
    match c.first with
    | none => [.release (.socket, 0), .release (.buffer, 0)]
    | some first =>
        if rejected first then onSocket ++ [.release (.socket, 0), .release (.buffer, 0)]
        else if c.malloc = false then [.release (.socket, 0), .release (.buffer, 0)]
        else
          [.acquire (.request, 0), .use (.request, 0), .use (.buffer, 0), .use (.socket, 0),
              .acquire (.parsed, 0), .use (.parsed, 0), .use (.buffer, 0)] ++
            parseTouches c.object ++ c.answerTouches (readHeaders maxBytes first c.later)

def served : Option ParsedRequest :=
  if c.cached then none
  else c.parsed.filter fun p =>
    !(c.enableAuth && !c.authorized) && !(p.host.isSome && c.domainBlocked) &&
      !(p.path.isSome && c.urlBlocked)

def parses : Bool := c.first.any (!rejected ·) && c.malloc

def dispatched : Option ParsedRequest := if c.parses then c.served else none

def strings (part : ThreadPart) : Bool := c.parses && mallocs c.object part

def getFails (p : ParsedRequest) : Bool :=
  p.method = ascii "GET" &&
    (p.host.isSome && p.path.isSome && checkHttpVersion p.version = 1) && c.handled = -1

def sessionFails (p : ParsedRequest) : Bool := p.method = ascii "CONNECT" && c.tunnel.unset

def leaves (strings : ThreadPart → Bool) (own : Option Nat) (request : Option ParsedRequest) :
    ThreadPart → Option Nat :=
  slots strings own (keep (request.any c.getFails)) (keep (request.any c.sessionFails))

end Conversation

/-! ## What each function leaves -/

section Moves

variable {p : ThreadPart → Option Nat}

theorem tryTouches_moves (skip : SockAddr → Bool) (res : List Candidate)
    (addresses : p .addresses = some 0) (endSocket : p .endSocket = none) :
    Moves p (tryTouches skip res) (Function.update p .endSocket
      (if (tryEach skip res).connected then some 0 else none)) := by
  have still : Function.update p .endSocket none = p := by
    rw [← endSocket, Function.update_eq_self]
  induction res with
  | nil => exact (moves_nil p).to still.symm
  | cons rp rest ih =>
      rw [tryTouches, tryEach]
      refine (moves_use addresses).cons ?_
      split
      · exact ih
      · split
        · exact ih
        · have opened := moves_acquire endSocket 0
          split
          · exact opened.cons (moves_nil _)
          · have closed := moves_release (Function.update_self ThreadPart.endSocket (some 0) p)
            rw [Function.update_idem, still] at closed
            exact opened.cons (closed.cons ih)

theorem connectTouches_moves (skip : SockAddr → Bool) (res : Option (List Candidate))
    (addresses : p .addresses = none) (endSocket : p .endSocket = none) :
    Moves p (connectTouches skip res) (Function.update p .endSocket
      (if (resolveAndTry skip res).connected then some 0 else none)) := by
  cases res with
  | none =>
      refine (moves_nil p).to ?_
      rw [← endSocket]
      exact (Function.update_eq_self ..).symm
  | some res =>
      have tried := tryTouches_moves skip res
        (Function.update_self ThreadPart.addresses (some 0) p)
        ((Function.update_of_ne (by decide) ..).trans endSocket)
      have freed := moves_release (m := Function.update (Function.update p .addresses (some 0))
        .endSocket (if (tryEach skip res).connected then some 0 else none))
        (s := .addresses) (g := 0) (by simp)
      have same : (resolveAndTry skip (some res)).connected = (tryEach skip res).connected := rfl
      refine (((moves_acquire addresses 0).cons tried).append freed).to ?_
      rw [same]
      funext part
      cases part <;> simp [addresses]

theorem regrow_moves {capacity : Nat} (block : p .response = some capacity) (needed : Nat) :
    Moves p (if capacity < needed then
        [.release (.response, capacity), .acquire (.response, capacity * 2)] else [])
      (Function.update p .response (some (grow capacity needed))) := by
  rw [grow]
  split
  · have taken := moves_acquire (Function.update_self ThreadPart.response none p) (capacity * 2)
    rw [Function.update_idem] at taken
    exact (moves_release block).cons taken
  · exact (moves_nil p).to (Function.update_eq_self_iff.mpr block.symm).symm

theorem receiveTouches_moves (f : ContentFilter) {capacity : Nat} (response : Bytes)
    (chunks : List (Chunk maxBytes)) (endSocket : p .endSocket = some 0)
    (sendBuffer : p .sendBuffer = some 0) (socket : p .socket = some 0)
    (block : p .response = some capacity) :
    Moves p (receiveTouches f capacity response chunks).1
      (Function.update p .response (some (receiveTouches f capacity response chunks).2)) := by
  induction chunks generalizing p capacity response with
  | nil =>
      refine ((moves_use endSocket).cons (moves_use sendBuffer)).to ?_
      exact (Function.update_eq_self_iff.mpr block.symm).symm
  | cons chunk rest ih =>
      let needed := response.length + chunk.bytes.length + 1
      let q := Function.update p .response (some (grow capacity needed))
      have q_block : q .response = some (grow capacity needed) := Function.update_self ..
      have q_endSocket : q .endSocket = some 0 :=
        (Function.update_of_ne (by decide) ..).trans endSocket
      have q_sendBuffer : q .sendBuffer = some 0 :=
        (Function.update_of_ne (by decide) ..).trans sendBuffer
      have q_socket : q .socket = some 0 := (Function.update_of_ne (by decide) ..).trans socket
      have received : Moves p [.use (.endSocket, 0), .use (.sendBuffer, 0)] p :=
        (moves_use endSocket).cons (moves_use sendBuffer)
      have stored := (received.append (regrow_moves block needed)).append <|
        (moves_use q_block).cons (moves_use q_sendBuffer)
      simp only [receiveTouches]
      split
      · exact received.to (Function.update_eq_self_iff.mpr block.symm).symm
      · split
        · exact stored
        · split
          · exact stored.append (moves_use q_socket)
          · have later := ih (response ++ chunk.bytes) q_endSocket q_sendBuffer q_socket q_block
            rw [Function.update_idem] at later
            exact stored.append ((moves_use q_socket).cons later)

theorem handled_ret (u : Upstream maxBytes) :
    u.handled.ret = if (connectEndServer u.addressFilter u.addresses).connected &&
      u.exchange.requestSent && u.exchange.malloc then 0 else -1 := by
  simp only [Upstream.handled, handleRequest]
  cases (connectEndServer u.addressFilter u.addresses).connected with
  | false => rfl
  | true =>
      cases u.exchange.requestSent with
      | false => rfl
      | true =>
          cases u.exchange.malloc with
          | false => rfl
          | true =>
              simp only [Bool.true_eq_false, if_false, Bool.and_self, if_true]
              split_ifs <;> rfl

theorem handleRequestTouches_moves (u : Upstream maxBytes) (parsed : p .parsed = some 0)
    (request : p .request = some 0) (socket : p .socket = some 0)
    (addresses : p .addresses = none) (endSocket : p .endSocket = none)
    (sendBuffer : p .sendBuffer = none) (response : p .response = none) :
    Moves p (handleRequestTouches u)
      (Function.update p .sendBuffer (if u.handled.ret = -1 then some 0 else none)) := by
  have other {part : ThreadPart} (differs : part ≠ .sendBuffer) :
      Function.update p .sendBuffer (some 0) part = p part := Function.update_of_ne differs ..
  have connects := connectTouches_moves (filterIsIpBlocked u.addressFilter) u.addresses
    ((other (by decide)).trans addresses) ((other (by decide)).trans endSocket)
  have start := ((moves_acquire sendBuffer 0).cons
    (moves_use ((other (by decide)).trans parsed))).append connects
  rw [handled_ret]
  refine start.append ?_
  change Moves (Function.update _ _ (if (connectEndServer u.addressFilter u.addresses).connected
    then _ else _)) _ _
  cases (connectEndServer u.addressFilter u.addresses).connected with
  | false => exact (moves_nil _).to (Function.update_eq_self_iff.mpr
      ((other (by decide)).trans endSocket).symm)
  | true =>
      simp only [Bool.true_eq_false, if_true, if_false, Bool.true_and]
      set q := Function.update (Function.update p .sendBuffer (some 0)) .endSocket (some 0)
        with q_eq
      have closed : Function.update q .endSocket none = Function.update p .sendBuffer (some 0) := by
        rw [q_eq, Function.update_idem]
        exact Function.update_eq_self_iff.mpr ((other (by decide)).trans endSocket).symm
      have connection : q .endSocket = some 0 := Function.update_self ..
      have buffer : q .sendBuffer = some 0 := by simp [q_eq]
      have sends : Moves q [.use (.endSocket, 0), .use (.sendBuffer, 0)] q :=
        (moves_use connection).cons (moves_use buffer)
      refine sends.append ?_
      cases u.exchange.requestSent with
      | false => exact (moves_release connection).to closed
      | true =>
          cases u.exchange.malloc with
          | false => exact (moves_release connection).to closed
          | true =>
              have other {part : ThreadPart} (differs : part ≠ .response) (g : Option Nat) :
                  Function.update q .response g part = q part := Function.update_of_ne differs ..
              have client : q .socket = some 0 := by simp [q_eq, socket]
              have key : q .request = some 0 := by simp [q_eq, request]
              have took := moves_acquire (show q .response = none by simp [q_eq, response]) maxBytes
              have loops := receiveTouches_moves u.contentFilter [] u.exchange.chunks
                ((other (by decide) _).trans connection) ((other (by decide) _).trans buffer)
                ((other (by decide) _).trans client) (Function.update_self ThreadPart.response
                  (some maxBytes) q)
              rw [Function.update_idem] at loops
              refine (took.cons loops).append ((moves_use (Function.update_self ..)).cons ?_)
              generalize (receiveTouches u.contentFilter maxBytes [] u.exchange.chunks).2 = capacity
              have answers : Moves (Function.update q .response (some capacity))
                  [if u.handled.stored = none then .use (.socket, 0) else .use (.request, 0)]
                  (Function.update q .response (some capacity)) := by
                split
                · exact moves_use ((other (by decide) _).trans client)
                · exact moves_use ((other (by decide) _).trans key)
              refine answers.cons (((moves_release ((other (by decide) _).trans buffer)).cons <|
                (moves_release (by simp)).cons <| moves_release (by simp [connection])).to ?_)
              funext part
              cases part <;> simp [q_eq, response, endSocket]

theorem handshakesTouches_moves (handshakes : Handshakes) (socket : p .socket = some 0)
    (endSocket : p .endSocket = some 0) (clientSsl : p .clientSsl = some 0)
    (serverSsl : p .serverSsl = some 0) :
    Moves p (handshakesTouches handshakes) (Function.update (Function.update p .clientSsl
      (keep handshakes.unset)) .serverSsl (keep handshakes.unset)) := by
  have freed : Moves p [.release (.clientSsl, 0), .release (.serverSsl, 0)]
      (Function.update (Function.update p .clientSsl none) .serverSsl none) :=
    (moves_release clientSsl).cons <|
      moves_release ((Function.update_of_ne (by decide) ..).trans serverSsl)
  have both : Moves p [.use (.clientSsl, 0), .use (.serverSsl, 0)] p :=
    (moves_use clientSsl).cons (moves_use serverSsl)
  cases handshakes with
  | acceptFailed => exact (moves_use clientSsl).cons freed
  | connectFailed => exact both.append freed
  | relay => exact both.append ((moves_use socket).cons ((moves_use endSocket).cons freed))
  | http2 initialised =>
      cases initialised with
      | true => exact both.append freed
      | false =>
          have client : Function.update p .clientSsl (some 0) = p :=
            Function.update_eq_self_iff.mpr clientSsl.symm
          refine both.to ?_
          change p = Function.update (Function.update p .clientSsl (some 0)) .serverSsl (some 0)
          rw [client]
          exact (Function.update_eq_self_iff.mpr serverSsl.symm).symm

theorem handleConnectTouches_moves (res : Option (List Candidate)) (handshakes : Handshakes)
    (parsed : p .parsed = some 0) (socket : p .socket = some 0)
    (addresses : p .addresses = none) (endSocket : p .endSocket = none)
    (clientSsl : p .clientSsl = none) (serverSsl : p .serverSsl = none) :
    Moves p (handleConnectTouches res handshakes) (Function.update (Function.update p .clientSsl
      (keep (handshakes.tunnel res).unset)) .serverSsl (keep (handshakes.tunnel res).unset)) := by
  have connects := connectTouches_moves (fun _ => false) res addresses endSocket
  refine ((moves_use parsed).cons connects).append ?_
  rw [Handshakes.unset_tunnel]
  change Moves (Function.update _ _ (if (ProxyServer.handleConnect res).connected
    then _ else _)) _ _
  cases (ProxyServer.handleConnect res).connected with
  | false =>
      refine (moves_nil _).to ?_
      funext part
      cases part <;> simp [keep, endSocket, clientSsl, serverSsl]
  | true =>
      have other {part : ThreadPart} (differs : part ≠ .endSocket) :
          Function.update p .endSocket (some 0) part = p part := Function.update_of_ne differs ..
      set q := Function.update (Function.update (Function.update p .endSocket (some 0)) .clientSsl
        (some 0)) .serverSsl (some 0) with q_eq
      have connection : q .endSocket = some 0 := by simp [q_eq]
      have made : Moves (Function.update p .endSocket (some 0)) [.use (.socket, 0),
          .acquire (.clientSsl, 0), .acquire (.serverSsl, 0), .use (.endSocket, 0)] q :=
        (moves_use ((other (by decide)).trans socket)).cons <|
          (moves_acquire ((other (by decide)).trans clientSsl) 0).cons <|
            (moves_acquire (by simp [serverSsl]) 0).cons (moves_use connection)
      have client : q .socket = some 0 := by simp [q_eq, socket]
      have shakes := handshakesTouches_moves handshakes client connection (by simp [q_eq])
        (by simp [q_eq])
      rw [Bool.true_and]
      refine ((made.append shakes).append (moves_release (by simp [connection]))).to ?_
      funext part
      cases part <;> simp [q_eq, endSocket]

end Moves

/-! ## The two accounts of the routine -/

def givesBack : Touch (ThreadPart × Nat) → Option ThreadPart
  | .release (.socket, _) => some .socket
  | .release (.buffer, _) => some .buffer
  | .release (.request, _) => some .request
  | .release (.parsed, _) => some .parsed
  | _ => none

def Op.givesBack : Op → Option ThreadPart
  | .close => some .socket
  | .freeBuffer => some .buffer
  | .freeRequest => some .request
  | .destroyParsed => some .parsed
  | _ => none

@[simp] theorem givesBack_use (r : ThreadPart × Nat) : givesBack (.use r) = none := rfl

@[simp] theorem givesBack_acquire (r : ThreadPart × Nat) : givesBack (.acquire r) = none := rfl

theorem tryTouches_givesBack (skip : SockAddr → Bool) (res : List Candidate) :
    (tryTouches skip res).filterMap givesBack = [] := by
  induction res with
  | nil => rfl
  | cons rp rest ih =>
      rw [tryTouches, List.filterMap_cons_none rfl]
      split
      · exact ih
      · split
        · exact ih
        · rw [List.filterMap_cons_none rfl]
          split
          · rfl
          · rw [List.filterMap_cons_none rfl, ih]

theorem connectTouches_givesBack (skip : SockAddr → Bool) (res : Option (List Candidate)) :
    (connectTouches skip res).filterMap givesBack = [] := by
  cases res with
  | none => rfl
  | some res =>
      rw [connectTouches, List.filterMap_append, List.filterMap_cons_none rfl,
        tryTouches_givesBack]
      rfl

theorem receiveTouches_givesBack (f : ContentFilter) (capacity : Nat) (response : Bytes)
    (chunks : List (Chunk maxBytes)) :
    (receiveTouches f capacity response chunks).1.filterMap givesBack = [] := by
  induction chunks generalizing capacity response with
  | nil => rfl
  | cons chunk rest ih =>
      have grown (needed : Nat) : (if capacity < needed then
          ([.release (.response, capacity), .acquire (.response, capacity * 2)] : ThreadTouches)
          else []).filterMap givesBack = [] := by
        split <;> rfl
      simp only [receiveTouches]
      split
      · rfl
      · split
        · simp only [List.filterMap_append, grown]
          rfl
        · split
          · simp only [List.filterMap_append, grown]
            rfl
          · simp only [List.filterMap_append, grown, List.filterMap_cons, givesBack_use, ih]
            rfl

theorem handleRequestTouches_givesBack (u : Upstream maxBytes) :
    (handleRequestTouches u).filterMap givesBack = [] := by
  simp only [handleRequestTouches, List.filterMap_append, connectTouches_givesBack]
  split
  · rfl
  · rw [List.filterMap_append]
    split
    · rfl
    · split
      · rfl
      · have answered : givesBack (if u.handled.stored = none then .use (.socket, 0)
            else .use (.request, 0)) = none := by
          split <;> rfl
        simp only [List.filterMap_append, List.filterMap_cons, givesBack_use, givesBack_acquire,
          receiveTouches_givesBack, answered]
        rfl

theorem handleConnectTouches_givesBack (res : Option (List Candidate)) (handshakes : Handshakes) :
    (handleConnectTouches res handshakes).filterMap givesBack = [] := by
  rw [handleConnectTouches, List.filterMap_append, List.filterMap_cons_none rfl,
    connectTouches_givesBack]
  split
  · rfl
  · cases handshakes with
    | acceptFailed => rfl
    | connectFailed => rfl
    | relay => rfl
    | http2 initialised => cases initialised <;> rfl

namespace Conversation

theorem dispatch_givesBack (c : Conversation maxBytes) (p : ParsedRequest) :
    (c.dispatchTouches p).filterMap givesBack = [] ∧
      (c.dispatch p).filterMap Op.givesBack = [] := by
  rw [dispatchTouches, Connection.dispatch]
  split
  · split
    · rw [List.filterMap_append, handleRequestTouches_givesBack]
      split <;> exact ⟨rfl, rfl⟩
    · exact ⟨rfl, rfl⟩
  · split
    · rw [List.filterMap_append, handleConnectTouches_givesBack]
      cases c.tunnel with
      | failed => exact ⟨rfl, rfl⟩
      | relayed => exact ⟨rfl, rfl⟩
      | http2 initialised => cases initialised <;> exact ⟨rfl, rfl⟩
    · exact ⟨rfl, rfl⟩

theorem finish_givesBack (c : Conversation maxBytes) :
    finishTouches.filterMap givesBack = c.finish.filterMap Op.givesBack := by
  rw [Connection.finish, List.filterMap_append]
  split <;> rfl

theorem answer_givesBack (c : Conversation maxBytes) (received : Bytes) :
    (c.answerTouches received).filterMap givesBack =
      (c.answer maxBytes received).filterMap Op.givesBack := by
  have finished (touches : ThreadTouches) (ops : List Op)
      (same : touches.filterMap givesBack = ops.filterMap Op.givesBack) :
      (touches ++ .release (.parsed, 0) :: finishTouches).filterMap givesBack =
        (ops ++ .destroyParsed :: c.finish).filterMap Op.givesBack := by
    rw [List.filterMap_append, List.filterMap_append, same]
    exact congrArg (_ ++ ThreadPart.parsed :: ·) c.finish_givesBack
  rw [answerTouches, Connection.answer]
  cases c.parsed with
  | some p =>
    dsimp only
    rw [List.filterMap_cons_none (givesBack_use _)]
    split
    · rfl
    · split
      · rfl
      · split
        · rfl
        · split
          · exact finished (.use (.request, 0) :: onSocket ++ logged) [.accessLog 200] rfl
          · obtain ⟨touches, ops⟩ := c.dispatch_givesBack p
            refine finished (.use (.request, 0) :: .use (.buffer, 0) :: .use (.parsed, 0) ::
              c.dispatchTouches p) (c.dispatch p) ?_
            rw [ops]
            exact touches
  | none =>
    dsimp only
    split
    · exact finished (.use (.request, 0) :: onSocket) [.accessLog 200] rfl
    · split
      · rfl
      · exact finished (.use (.request, 0) :: .use (.buffer, 0) :: onSocket)
          [.throwError 400, .accessLog 400] rfl

theorem parseTouches_givesBack (pr : ProxyParse.ParsedRequest) :
    (parseTouches pr).filterMap givesBack = [] := by
  rw [parseTouches, List.filterMap_map]
  exact List.filterMap_eq_nil_iff.mpr fun _ _ => rfl

theorem touches_givesBack (c : Conversation maxBytes) :
    c.touches.filterMap givesBack = (c.threadRoutine maxBytes).filterMap Op.givesBack := by
  have served : c.touches.filterMap givesBack =
      (c.serve maxBytes).filterMap Op.givesBack := by
    rw [touches, Connection.serve, List.filterMap_append]
    cases c.first with
    | none => rfl
    | some first =>
        dsimp only
        split
        · rfl
        · split
          · rfl
          · simp only [List.filterMap_append, parseTouches_givesBack]
            exact c.answer_givesBack _
  rw [served, Connection.threadRoutine]
  split <;> rfl

end Conversation

/-! ## What a thread leaves -/

variable (strings : ThreadPart → Bool)

theorem slots_sendBuffer (own g : Option Nat) :
    Function.update (slots strings own none none) .sendBuffer g = slots strings own g none := by
  funext part
  cases part <;> rfl

theorem slots_ssl (own g : Option Nat) :
    Function.update (Function.update (slots strings own none none) .clientSsl g) .serverSsl g =
      slots strings own none g := by
  funext part
  cases part <;> rfl

namespace Conversation

theorem dispatchTouches_moves (c : Conversation maxBytes) (p : ParsedRequest) :
    Moves (slots strings (some 0) none none) (c.dispatchTouches p)
      (c.leaves strings (some 0) (some p)) := by
  have logs (buffer ssl : Option Nat) :
      Moves (slots strings (some 0) buffer ssl) logged (slots strings (some 0) buffer ssl) := rfl
  have throws (buffer ssl : Option Nat) :
      Moves (slots strings (some 0) buffer ssl) (onSocket ++ logged)
        (slots strings (some 0) buffer ssl) := rfl
  rw [leaves, Option.any_some, Option.any_some, dispatchTouches]
  split
  · rename_i get
    have session : c.sessionFails p = false := by
      simp [sessionFails, get, show ascii "GET" ≠ ascii "CONNECT" by decide]
    rw [session]
    split
    · rename_i complete
      have fails : keep (c.getFails p) = if c.upstream.handled.ret = -1 then some 0 else none := by
        rw [getFails, complete, get, c.handled_eq]
        simp [keep]
      have handles := handleRequestTouches_moves c.upstream (p := slots strings (some 0) none none)
        rfl rfl rfl rfl rfl rfl rfl
      rw [slots_sendBuffer, ← fails] at handles
      refine handles.append ?_
      split
      · exact throws ..
      · exact logs ..
    · rename_i incomplete
      have fails : c.getFails p = false := by simp [getFails, incomplete]
      rw [fails]
      exact throws ..
  · rename_i get
    have fails : c.getFails p = false := by simp [getFails, get]
    rw [fails]
    split
    · rename_i connect
      have session : c.sessionFails p = (c.handshakes.tunnel c.upstream.addresses).unset := by
        simp [sessionFails, connect, c.tunnel_eq]
      have handles := handleConnectTouches_moves c.upstream.addresses c.handshakes
        (p := slots strings (some 0) none none) rfl rfl rfl rfl rfl rfl
      rw [slots_ssl, ← session] at handles
      refine handles.append ?_
      split
      · exact throws ..
      · exact logs ..
    · rename_i connect
      have session : c.sessionFails p = false := by simp [sessionFails, connect]
      rw [session]
      exact throws ..

theorem parseTouches_moves (pr : ProxyParse.ParsedRequest) :
    Moves (slots (fun _ => false) (some 0) none none) (parseTouches pr)
      (slots (mallocs pr) (some 0) none none) := by
  rw [parseTouches]
  generalize mallocs pr = strings
  cases protocol : strings .protocol <;> cases host : strings .host <;>
    cases port : strings .port <;>
      · simp only [List.filter, protocol, host, port, List.map]
        refine Moves.to rfl ?_
        funext part
        cases part <;> simp [slots, keep, protocol, host, port]

theorem refuseTouches_moves :
    Moves (slots strings (some 0) none none) refuseTouches (slots strings none none none) := by
  refine Moves.to rfl ?_
  funext part
  cases part <;> rfl

theorem finishTouches_moves (buffer ssl : Option Nat) :
    Moves (slots strings (some 0) buffer ssl) (.release (.parsed, 0) :: finishTouches)
      (slots strings none buffer ssl) := by
  refine Moves.to rfl ?_
  funext part
  cases part <;> rfl

theorem answerTouches_moves (c : Conversation maxBytes) (received : Bytes) :
    Moves (slots strings (some 0) none none) (c.answerTouches received)
      (c.leaves strings none c.served) := by
  have uses (touches : ThreadTouches)
      (there : Moves (slots strings (some 0) none none) touches
        (slots strings (some 0) none none)) :
      Moves (slots strings (some 0) none none) (touches ++ .release (.parsed, 0) :: finishTouches)
        (slots strings none none none) := there.append (finishTouches_moves strings none none)
  rw [answerTouches]
  split
  · rename_i p parsed
    have refuses (refused : (!(c.enableAuth && !c.authorized) &&
        !(p.host.isSome && c.domainBlocked) && !(p.path.isSome && c.urlBlocked)) = false) :
        Moves (slots strings (some 0) none none) refuseTouches
          (c.leaves strings none c.served) := by
      rw [show c.served = none by
        rw [served, parsed, Option.filter_some, refused, if_neg Bool.false_ne_true, ite_self]]
      exact refuseTouches_moves strings
    refine Moves.cons (moves_use rfl) ?_
    split
    · rename_i refused
      exact refuses (by rw [refused]; rfl)
    · rename_i authorized
      split
      · rename_i refused
        exact refuses (by rw [refused, Bool.not_true, Bool.and_false, Bool.false_and])
      · rename_i domain
        split
        · rename_i refused
          exact refuses (by rw [refused, Bool.not_true, Bool.and_false])
        · rename_i url
          split
          · rename_i cached
            rw [show c.served = none by simp [served, cached]]
            exact uses (.use (.request, 0) :: onSocket ++ logged) rfl
          · rename_i cached
            have start : Moves (slots strings (some 0) none none)
                [.use (.request, 0), .use (.buffer, 0), .use (.parsed, 0)]
                (slots strings (some 0) none none) := rfl
            rw [Bool.not_eq_true] at authorized domain url
            rw [show c.served = some p by
              rw [served, if_neg cached, parsed, Option.filter_some, authorized, domain, url]; rfl]
            exact (start.append (c.dispatchTouches_moves strings p)).append (finishTouches_moves ..)
  · rename_i parsed
    rw [show c.served = none by simp [served, parsed]]
    split
    · exact uses (.use (.request, 0) :: onSocket) rfl
    · split
      · refine Moves.to rfl ?_
        funext part
        cases part <;> rfl
      · exact uses (.use (.request, 0) :: .use (.buffer, 0) :: onSocket) rfl

theorem touches_moves (c : Conversation maxBytes) :
    Moves opened c.touches (c.leaves c.strings none c.dispatched) := by
  have closes (unparsed : c.parses = false) : Moves (Function.update opened .buffer (some 0))
      [.release (.socket, 0), .release (.buffer, 0)]
      (c.leaves c.strings none c.dispatched) := by
    rw [show c.dispatched = none by simp [dispatched, unparsed],
      show c.strings = fun _ => false by funext part; simp [strings, unparsed]]
    refine Moves.to rfl ?_
    funext part
    cases part <;> rfl
  have receives : Moves opened (onSocket ++ [.acquire (.buffer, 0), .use (.socket, 0),
      .use (.buffer, 0)]) (Function.update opened .buffer (some 0)) := rfl
  rw [touches]
  refine receives.append ?_
  split
  · rename_i first
    exact closes (by simp [parses, first])
  · rename_i first first_eq
    split
    · rename_i refused
      exact Moves.cons (moves_use rfl) (closes (by simp [parses, first_eq, refused]))
    · rename_i accepted
      split
      · rename_i malloc
        exact closes (by simp [parses, malloc])
      · rename_i malloc
        have parsed : c.parses = true := by simp [parses, first_eq, accepted, malloc]
        rw [show c.dispatched = c.served by simp [dispatched, parsed],
          show c.strings = mallocs c.object by funext part; simp [strings, parsed]]
        have creates : Moves (Function.update opened .buffer (some 0))
            [.acquire (.request, 0), .use (.request, 0), .use (.buffer, 0), .use (.socket, 0),
              .acquire (.parsed, 0), .use (.parsed, 0), .use (.buffer, 0)]
            (slots (fun _ => false) (some 0) none none) := by
          refine Moves.to rfl ?_
          funext part
          cases part <;> rfl
        exact (creates.append (parseTouches_moves c.object)).append (c.answerTouches_moves _ _)

end Conversation

def unresolvedObject : ProxyParse.ParsedRequest :=
  match ProxyParse.parsedRequestParse 0 (ProxyParse.newRequest .null)
      (ascii "GET http://a/ HTTP/1.1\r\n\r\n") with
  | .ok (_, pr) => pr
  | .error _ => ProxyParse.newRequest .null

def unresolved : Conversation 64 where
  inet6 := false
  peerAtStart := true
  peerAtEnd := true
  gone := fun _ => rfl
  first := some (ascii "GET http://a/ HTTP/1.1\r\n\r\n")
  later := []
  malloc := true
  parsed := some (.ofObject unresolvedObject)
  enableAuth := false
  authorized := false
  domainBlocked := false
  urlBlocked := false
  cached := false
  handled := -1
  tunnel := .failed
  object := unresolvedObject
  parsed_eq := by
    rintro p ⟨⟩
    rfl
  upstream :=
    { addressFilter := ⟨false, [], []⟩
      contentFilter := ⟨false, [], []⟩
      addresses := none
      exchange := ⟨false, false, false, [], .closed⟩
      handshakes := false
      tunnel := [] }
  handshakes := .relay
  handled_eq := by decide
  tunnel_eq := rfl

end ProxyServer.Connections
