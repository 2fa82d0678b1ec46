import ProxyServer.Filter.Address

namespace ProxyServer

structure Candidate where
  addr : SockAddr
  socketOk : Bool
  connectOk : Bool
  deriving DecidableEq

structure Attempts where
  connects : List SockAddr
  connected : Bool
  deriving DecidableEq

def tryEach (skip : SockAddr → Bool) : List Candidate → Attempts
  | [] => ⟨[], false⟩
  | rp :: rest =>
      if skip rp.addr then tryEach skip rest
      else if rp.socketOk = false then tryEach skip rest
      else if rp.connectOk then ⟨[rp.addr], true⟩
      else ⟨rp.addr :: (tryEach skip rest).connects, (tryEach skip rest).connected⟩

def resolveAndTry (skip : SockAddr → Bool) (res : Option (List Candidate)) : Attempts :=
  res.elim ⟨[], false⟩ (tryEach skip)

def connectEndServer (f : AddressFilter) (res : Option (List Candidate)) : Attempts :=
  resolveAndTry (filterIsIpBlocked f) res

/-- The loop of `HandleConnect` has no filter in it. -/
def handleConnect (res : Option (List Candidate)) : Attempts := resolveAndTry (fun _ => false) res

inductive Http2UpstreamState where
  | init
  | connecting
  | sendingRequest
  deriving DecidableEq

inductive ConnectResult where
  | ok
  | inProgress
  | failed
  deriving DecidableEq

/-- What the system calls of a stream's first step return; `hostent` is the address list that
`gethostbyname` finds, its first address apart. -/
structure StreamCalls where
  socketOk : Bool
  getFlagsOk : Bool
  setFlagsOk : Bool
  sslOk : Bool
  hostent : Option (UInt32 × List UInt32)
  connect : ConnectResult
  getsockoptOk : Bool
  socketError : Bool

structure StreamStep where
  connects : List SockAddr
  state : Http2UpstreamState
  ret : Int
  deriving DecidableEq

def http2StreamConnecting (state : Http2UpstreamState) (o : StreamCalls) : StreamStep :=
  if o.getsockoptOk = false then ⟨[], state, -1⟩
  else if o.socketError then ⟨[], state, -1⟩
  else ⟨[], .sendingRequest, 0⟩

/-- `case HTTP2_UPSTREAM_STATE_INIT`, which falls through once it is connected. -/
def http2StreamInit (port : UInt16) (o : StreamCalls) : StreamStep :=
  if o.socketOk = false then ⟨[], .init, -1⟩
  else if o.getFlagsOk = false then ⟨[], .init, -1⟩
  else if o.setFlagsOk = false then ⟨[], .init, -1⟩
  else if o.sslOk = false then ⟨[], .init, -1⟩
  else match o.hostent with
    | none => ⟨[], .init, -1⟩
    | some (first, _) =>
        match o.connect with
        | .failed => ⟨[.inet first port], .init, -1⟩
        | .inProgress => ⟨[.inet first port], .connecting, 0⟩
        | .ok => { http2StreamConnecting .sendingRequest o with connects := [.inet first port] }

inductive UpstreamRequest where
  | get (res : Option (List Candidate))
  | connect (res : Option (List Candidate))
  | http2 (port : UInt16) (calls : StreamCalls)

def UpstreamRequest.connects (f : AddressFilter) : UpstreamRequest → List SockAddr
  | .get res => (connectEndServer f res).connects
  | .connect res => (handleConnect res).connects
  | .http2 port calls => (http2StreamInit port calls).connects

/-- Every address that comes up for a tunnel, up to the first that connects, and the first address
of a stream's host are outside the deny list. -/
def UpstreamRequest.OutsideDenyList (f : AddressFilter) : UpstreamRequest → Prop
  | .get _ => True
  | .connect res => ∀ before rp after, res = some (before ++ rp :: after) →
      (∀ c ∈ before, (c.socketOk && c.connectOk) = false) → rp.socketOk = true →
      filterIsIpBlocked f rp.addr = false
  | .http2 port calls =>
      calls.socketOk = true → calls.getFlagsOk = true → calls.setFlagsOk = true →
      calls.sslOk = true → ∀ first rest, calls.hostent = some (first, rest) →
      filterIsIpBlocked f (.inet first port) = false

theorem mem_tryEach {skip : SockAddr → Bool} {res : List Candidate} {sa : SockAddr} :
    sa ∈ (tryEach skip res).connects ↔
      ∃ before rp after, res = before ++ rp :: after ∧
        (∀ c ∈ before, skip c.addr = true ∨ (c.socketOk && c.connectOk) = false) ∧
        skip rp.addr = false ∧ rp.socketOk = true ∧ sa = rp.addr := by
  induction res with
  | nil => simp [tryEach]
  | cons first rest ih =>
      have later : (∃ before rp after, first :: rest = before ++ rp :: after ∧
          (∀ c ∈ before, skip c.addr = true ∨ (c.socketOk && c.connectOk) = false) ∧
          skip rp.addr = false ∧ rp.socketOk = true ∧ sa = rp.addr) ↔
          (skip first.addr = false ∧ first.socketOk = true ∧ sa = first.addr) ∨
            ((skip first.addr = true ∨ (first.socketOk && first.connectOk) = false) ∧
              sa ∈ (tryEach skip rest).connects) := by
        rw [ih]
        constructor
        · intro given
          obtain ⟨before, rp, after, split, passed, tried⟩ := given
          cases before with
          | nil =>
              obtain ⟨rfl, rfl⟩ := List.cons.inj split
              exact Or.inl tried
          | cons c before =>
              obtain ⟨rfl, rfl⟩ := List.cons.inj split
              exact Or.inr ⟨passed _ (by simp), before, rp, after, rfl,
                fun c member => passed c (by simp [member]), tried⟩
        · rintro (tried | ⟨passed, before, rp, after, rfl, all, tried⟩)
          · exact ⟨[], first, rest, rfl, by simp, tried⟩
          · exact ⟨first :: before, rp, after, rfl, List.forall_mem_cons.mpr ⟨passed, all⟩, tried⟩
      rw [later, tryEach]
      cases skipped : skip first.addr with
      | true => simp
      | false =>
          cases socket : first.socketOk with
          | false => simp
          | true => cases connect : first.connectOk <;> simp

theorem connectEndServer_unblocked (f : AddressFilter) (res : Option (List Candidate)) :
    ∀ sa ∈ (connectEndServer f res).connects, filterIsIpBlocked f sa = false := by
  intro sa member
  cases res with
  | none => simp [connectEndServer, resolveAndTry] at member
  | some res =>
      obtain ⟨_, rp, _, _, _, clear, _, rfl⟩ := mem_tryEach.mp member
      exact clear

theorem mem_handleConnect {res : Option (List Candidate)} {sa : SockAddr} :
    sa ∈ (handleConnect res).connects ↔
      ∃ before rp after, res = some (before ++ rp :: after) ∧
        (∀ c ∈ before, (c.socketOk && c.connectOk) = false) ∧ rp.socketOk = true ∧
        sa = rp.addr := by
  cases res with
  | none => simp [handleConnect, resolveAndTry]
  | some res => simp [handleConnect, resolveAndTry, mem_tryEach]

theorem mem_http2StreamInit {port : UInt16} {o : StreamCalls} {sa : SockAddr} :
    sa ∈ (http2StreamInit port o).connects ↔
      o.socketOk = true ∧ o.getFlagsOk = true ∧ o.setFlagsOk = true ∧ o.sslOk = true ∧
        ∃ first rest, o.hostent = some (first, rest) ∧ sa = .inet first port := by
  unfold http2StreamInit
  rcases o.hostent with _ | ⟨first, rest⟩
  · cases o.socketOk <;> cases o.getFlagsOk <;> cases o.setFlagsOk <;> cases o.sslOk <;> simp
  · have called : (match o.connect with
        | .failed => ⟨[.inet first port], .init, -1⟩
        | .inProgress => ⟨[.inet first port], .connecting, 0⟩
        | .ok => { http2StreamConnecting .sendingRequest o with connects := [.inet first port] } :
          StreamStep).connects = [.inet first port] := by
      cases o.connect <;> rfl
    cases o.socketOk <;> cases o.getFlagsOk <;> cases o.setFlagsOk <;> cases o.sslOk <;>
      simp [called]

/-- No blocked address is connected to exactly if the request is one that `ConnectEndServer` serves,
or its addresses happen to be outside the deny list. -/
theorem connects_unblocked_iff (f : AddressFilter) (request : UpstreamRequest) :
    (∀ sa ∈ request.connects f, filterIsIpBlocked f sa = false) ↔ request.OutsideDenyList f := by
  cases request with
  | get res => exact iff_of_true (connectEndServer_unblocked f res) trivial
  | connect res =>
      simp only [UpstreamRequest.connects, mem_handleConnect, UpstreamRequest.OutsideDenyList]
      constructor
      · intro all before rp after resolved passed socket
        exact all rp.addr ⟨before, rp, after, resolved, passed, socket, rfl⟩
      · intro all sa given
        obtain ⟨before, rp, after, resolved, passed, socket, rfl⟩ := given
        exact all before rp after resolved passed socket
  | http2 port calls =>
      simp only [UpstreamRequest.connects, mem_http2StreamInit, UpstreamRequest.OutsideDenyList]
      constructor
      · intro all socket getFlags setFlags ssl first rest resolved
        exact all _ ⟨socket, getFlags, setFlags, ssl, first, rest, resolved, rfl⟩
      · intro all sa given
        obtain ⟨socket, getFlags, setFlags, ssl, first, rest, resolved, rfl⟩ := given
        exact all socket getFlags setFlags ssl first rest resolved

theorem tunnel_ignores_deny_list :
    let f : AddressFilter :=
      ⟨true, [], [⟨0x0a000000, 0xff000000, false, fun _ => 0, fun _ => 0⟩]⟩
    filterIsIpBlocked f (.inet 0x0a000001 443) = true ∧
      .inet 0x0a000001 443 ∈
        (UpstreamRequest.connect (some [⟨.inet 0x0a000001 443, true, true⟩])).connects f ∧
      .inet 0x0a000001 443 ∈
        (UpstreamRequest.http2 443
          ⟨true, true, true, true, some (0x0a000001, []), .ok, true, false⟩).connects f := by
  decide

end ProxyServer
