import ProxyServer.Http2.ActiveStreams
import ProxyServer.Lib.Block

namespace ProxyServer.Http2
open Lib Block

structure HeaderBuf where
  bytes : Option Bytes
  length : Nat
  null : bytes = none → length = 0
  holds : ∀ buf, bytes = some buf → length ≤ buf.length

def HeaderBuf.content (h : HeaderBuf) : Bytes := (h.bytes.getD []).take h.length

def HeaderBuf.copyTo (h : HeaderBuf) (p : Bytes × Nat) : Checked (Bytes × Nat) :=
  match h.bytes with
  | some buf =>
      if h.length > 0 then do
        let bytes ← copyAt buf 0 h.length
        put p bytes
      else pure p
  | none => pure p

/-- The copies that `http2_process_stream` makes; `p` is the offset in the result. -/
def copyRequest (method path authority : Bytes) (headers : HeaderBuf) (body : Bytes)
    (upstreamRequest : Bytes) : Checked (Bytes × Nat) := do
  let p ← put (upstreamRequest, 0) (cstr method)
  let p ← put p (ascii " ")
  let p ← put p (cstr path)
  let p ← put p (ascii " HTTP/1.1\r\n")
  let p ← put p (ascii "Host: ")
  let p ← put p (cstr authority)
  let p ← put p (ascii "\r\n")
  let p ← headers.copyTo p
  let p ← put p (ascii "\r\n")
  if body.length > 0 then put p body else pure p

namespace Http2Stream

def taken (request : Bytes) : Nat → List UpstreamWrite → Bytes
  | _, [] => []
  | sent, write :: writes =>
      if sent < request.length then
        match write with
        | .took more =>
            (request.drop sent).take (min (more + 1) (request.length - sent)) ++
              taken request (min (sent + more + 1) request.length) writes
        | .again | .failed => []
      else []

def sends (s : Http2Stream) : Bool :=
  s.isActive && s.upstreamState == .opening .sendingRequest

def takenBy (s : Http2Stream) (round : Round) : Bytes :=
  if s.sends then
    ((s.upstreamRequest.or s.build).map fun request =>
      taken request s.upstreamRequestSent round.writes).getD []
  else []

def builtBy (s : Http2Stream) : List Bytes :=
  if s.sends && s.upstreamRequest.isNone then s.build.toList else []

structure Unbuilt (s : Http2Stream) : Prop where
  state : ∃ state, s.upstreamState = .opening state
  request : s.upstreamRequest = none
  sent : s.upstreamRequestSent = 0

end Http2Stream

inductive StreamEvent where
  | callback (callback : Callback)
  | process (round : Round)

structure Upload where
  stream : Http2Stream
  accepted : Bytes
  built : List Bytes

namespace Upload

def step (port : UInt16) (u : Upload) : StreamEvent → Option Upload
  | .callback callback => some { u with stream := u.stream.receive callback }
  | .process round => (u.stream.process port round).map fun result =>
      { stream := result.stream
        accepted := u.accepted ++ u.stream.takenBy round
        built := u.built ++ u.stream.builtBy }

structure Faithful (u : Upload) : Prop where
  once : u.built.length ≤ 1
  ordered : u.accepted <+: u.built.flatten
  whole : u.stream.upstreamState = .readingResponse →
    u.built ≠ [] ∧ u.accepted = u.built.flatten

end Upload

theorem HeaderBuf.copyTo_eq (h : HeaderBuf) {p : Bytes × Nat} (inside : p.2 ≤ p.1.length) :
    h.copyTo p = put p h.content := by
  rw [copyTo, content]
  cases given : h.bytes with
  | none =>
      rw [h.null given, List.take_zero, put_nil inside]
      rfl
  | some buf =>
      have enough := h.holds buf given
      cases length : h.length with
      | zero =>
          rw [List.take_zero, put_nil inside]
          rfl
      | succ n =>
          rw [length] at enough
          simp only [Nat.zero_lt_succ, if_true, copyAt, Nat.zero_add, if_pos enough,
            List.drop_zero, Option.getD_some]
          rfl

theorem copyRequest_eq (method path authority : Bytes) (headers : HeaderBuf) (body : Bytes)
    {request upstreamRequest : Bytes}
    (whole : request = cstr method ++ ascii " " ++ cstr path ++ ascii " HTTP/1.1\r\n" ++
      ascii "Host: " ++ cstr authority ++ ascii "\r\n" ++ headers.content ++ ascii "\r\n" ++ body)
    (fits : request.length ≤ upstreamRequest.length) :
    copyRequest method path authority headers body upstreamRequest =
      .ok (request ++ upstreamRequest.drop request.length, request.length) := by
  rw [copyRequest, put_bind, put_bind, put_bind, put_bind, put_bind, put_bind]
  generalize cstr method ++ ascii " " ++ cstr path ++ ascii " HTTP/1.1\r\n" ++ ascii "Host: " ++
    cstr authority ++ ascii "\r\n" = head at *
  subst whole
  simp only [List.length_append] at fits
  have first : put (upstreamRequest, 0) head =
      .ok (head ++ upstreamRequest.drop head.length, head.length) :=
    @put_front [] head upstreamRequest (by omega)
  rw [first, ok_bind, headers.copyTo_eq (by simp), put_bind,
    put_front (by simp only [List.length_append, List.length_drop]; omega), ok_bind,
    List.drop_drop]
  cases body with
  | nil =>
      rw [if_neg (by simp)]
      simp
      rfl
  | cons c body =>
      rw [if_pos (by simp),
        put_front (by simp only [List.length_append, List.length_drop]; omega), List.drop_drop]
      simp [Nat.add_assoc]

namespace Http2Stream

variable {s : Http2Stream}

theorem sendLoop_taken {request : Bytes} {sent sent' : Nat} {writes : List UpstreamWrite}
    {ret : Option Int} (begun : sent ≤ request.length)
    (ran : sendLoop request.length sent writes = (sent', ret)) :
    sent' ≤ request.length ∧
      request.take sent ++ taken request sent writes = request.take sent' ∧
      (ret = none → sent' = request.length) := by
  induction writes generalizing sent with
  | nil =>
      rw [sendLoop] at ran
      rw [taken, List.append_nil]
      split at ran
      · cases ran
        exact ⟨begun, rfl, by simp⟩
      · cases ran
        exact ⟨begun, rfl, fun _ => by omega⟩
  | cons write writes ih =>
      by_cases more : sent < request.length
      · cases write with
        | took n =>
            simp only [sendLoop, taken, if_pos more] at ran ⊢
            obtain ⟨bounded, taken, all⟩ := ih (min_le_right _ _) ran
            refine ⟨bounded, ?_, all⟩
            have reached : min (sent + n + 1) request.length =
                sent + min (n + 1) (request.length - sent) := by omega
            rw [← taken, ← List.append_assoc, reached, List.take_add]
        | again =>
            simp only [sendLoop, taken, if_pos more] at ran ⊢
            cases ran
            exact ⟨begun, by simp, by simp⟩
        | failed =>
            simp only [sendLoop, taken, if_pos more] at ran ⊢
            cases ran
            exact ⟨begun, by simp, by simp⟩
      · simp only [sendLoop, taken, if_neg more] at ran ⊢
        cases ran
        exact ⟨begun, by simp, fun _ => by omega⟩

theorem quiet_of_not_sends (quiet : s.sends = false) (round : Round) :
    s.takenBy round = [] ∧ s.builtBy = [] := by
  simp [takenBy, builtBy, quiet]

theorem readResponse_state (s : Http2Stream) (reading : s.upstreamState = .readingResponse)
    (read : UpstreamRead) :
    (s.readResponse read).stream.upstreamState = .readingResponse ∨
      (s.readResponse read).stream.upstreamState = .done := by
  cases read with
  | data piece calls => exact Or.inl ((s.readData_frame piece.bytes calls).2.2.trans reading)
  | again => exact Or.inl reading
  | closed calls =>
      rcases s.readClosed_stream calls with same | done
      · exact Or.inl ((congrArg upstreamState same).trans reading)
      · exact Or.inr (congrArg upstreamState done)
  | failed => exact Or.inl reading

end Http2Stream

namespace Upload

def Kept (u : Upload) : Prop :=
  match u.stream.upstreamState with
  | .opening state =>
      (u.stream.upstreamRequest = none ∧ u.stream.upstreamRequestSent = 0 ∧ u.built = [] ∧
          u.accepted = []) ∨
        state = .sendingRequest ∧ ∃ request, u.stream.upstreamRequest = some request ∧
          u.built = [request] ∧ u.stream.upstreamRequestSent ≤ request.length ∧
          u.accepted = request.take u.stream.upstreamRequestSent
  | .readingResponse | .done => ∃ request, u.built = [request] ∧ u.accepted = request

theorem Kept.faithful {u : Upload} (kept : u.Kept) : u.Faithful := by
  unfold Kept at kept
  split at kept
  · rename_i state opening
    rcases kept with ⟨-, -, built, accepted⟩ | ⟨-, request, -, built, -, accepted⟩
    · exact ⟨by simp [built], by simp [accepted], by simp [opening]⟩
    · refine ⟨by simp [built], ?_, by simp [opening]⟩
      rw [accepted, built, List.flatten_singleton]
      exact List.take_prefix _ _
  · obtain ⟨request, built, accepted⟩ := kept
    exact ⟨by simp [built], by simp [built, accepted], by simp [built, accepted]⟩
  · obtain ⟨request, built, accepted⟩ := kept
    exact ⟨by simp [built], by simp [built, accepted], by simp [built, accepted]⟩

theorem Kept.sendRequest {u : Upload} (kept : u.Kept) (active : u.stream.isActive = true)
    (state : u.stream.upstreamState = .opening .sendingRequest) {round : Round}
    {result : RoundResult} (ran : u.stream.sendRequest round.writes = some result) :
    Kept ⟨result.stream, u.accepted ++ u.stream.takenBy round, u.built ++ u.stream.builtBy⟩ := by
  have sends : u.stream.sends = true := by simp [Http2Stream.sends, active, state]
  obtain ⟨request, given, sent⟩ := Option.bind_eq_some_iff.mp ran
  -- Whether it is built in this round or was built before, there is one request.
  have once : u.built ++ u.stream.builtBy = [request] ∧
      u.stream.upstreamRequestSent ≤ request.length ∧
      u.accepted = request.take u.stream.upstreamRequestSent := by
    rw [Kept, state] at kept
    rcases kept with ⟨unbuilt, unsent, built, accepted⟩ | ⟨-, earlier, kept, built, bounded, accepted⟩
    · rw [unbuilt, Option.none_or] at given
      simp [Http2Stream.builtBy, sends, unbuilt, given, built, unsent, accepted]
    · rw [kept, Option.some_or, Option.some.injEq] at given
      subst given
      exact ⟨by simp [Http2Stream.builtBy, sends, kept, built], bounded, accepted⟩
  obtain ⟨built, begun, accepted⟩ := once
  have takes : u.stream.takenBy round =
      Http2Stream.taken request u.stream.upstreamRequestSent round.writes := by
    simp [Http2Stream.takenBy, sends, given]
  simp only at sent
  split at sent
  · cases sent
  · split at sent
    · rename_i reached ret looped
      cases sent
      obtain ⟨bounded, whole, -⟩ := Http2Stream.sendLoop_taken begun looped
      simp only [Kept, state]
      refine Or.inr ⟨trivial, request, rfl, built, bounded, ?_⟩
      rw [takes, accepted, whole]
    · rename_i reached looped
      cases sent
      obtain ⟨-, whole, all⟩ := Http2Stream.sendLoop_taken begun looped
      simp only [Kept]
      refine ⟨request, built, ?_⟩
      rw [takes, accepted, whole, all rfl, List.take_length]

theorem Kept.step {u v : Upload} {port : UInt16} {event : StreamEvent} (kept : u.Kept)
    (taken : u.step port event = some v) : v.Kept := by
  cases event with
  | callback callback =>
      cases taken
      exact kept
  | process round =>
      obtain ⟨result, ran, rfl⟩ := Option.map_eq_some_iff.mp taken
      cases active : u.stream.isActive with
      | false =>
          have quiet := u.stream.quiet_of_not_sends (by simp [Http2Stream.sends, active]) round
          rw [Http2Stream.process_idle active] at ran
          cases ran
          rw [quiet.1, quiet.2, List.append_nil, List.append_nil]
          exact kept
      | true =>
          rw [Http2Stream.process_active active] at ran
          by_cases sending : u.stream.upstreamState = .opening .sendingRequest
          · rw [sending] at ran
            exact kept.sendRequest active sending ran
          · have quiet := u.stream.quiet_of_not_sends
              (by simp [Http2Stream.sends, sending]) round
            rw [quiet.1, quiet.2, List.append_nil, List.append_nil]
            split at ran
            · rename_i state
              cases ran
              rw [Kept, state] at kept
              exact Or.inl (kept.resolve_right (by simp))
            · rename_i state
              cases ran
              rw [Kept, state] at kept
              exact Or.inl (kept.resolve_right (by simp))
            · rename_i state
              exact absurd state sending
            · rename_i state
              cases ran
              rw [Kept, state] at kept
              rcases u.stream.readResponse_state state round.read with reading | done
              · rw [Kept, reading]
                exact kept
              · rw [Kept, done]
                exact kept
            · rename_i state
              cases ran
              rw [Kept, state] at kept
              simp only [Kept, state]
              exact kept

end Upload

theorem copyRequest_build {r : StreamRequest} {method path authority : Bytes}
    (isMethod : r.method = some method) (isPath : r.path = some path)
    (isAuthority : r.authority = some authority) (headers : HeaderBuf)
    (isHeaders : headers.content = r.headers) :
    ∃ request, r.build = some request ∧ r.totalLength = some request.length ∧
      ∀ buffer : Bytes, buffer.length = request.length + 1 →
        copyRequest method path authority headers r.body buffer =
          .ok (request ++ buffer.drop request.length, request.length) := by
  have built : r.build = some (cstr method ++ ascii " " ++ cstr path ++ ascii " HTTP/1.1\r\n" ++
      ascii "Host: " ++ cstr authority ++ ascii "\r\n" ++ r.headers ++ ascii "\r\n" ++ r.body) := by
    simp [StreamRequest.build, isMethod, isPath, isAuthority]
  refine ⟨_, built, ?_, ?_⟩
  · rw [← r.build_length, built, Option.map_some]
  · intro buffer size
    refine copyRequest_eq method path authority headers r.body ?_ (by omega)
    rw [isHeaders]

theorem upload_faithful {s : Http2Stream} {method path authority : Bytes}
    (isMethod : s.method = some method) (isPath : s.path = some path)
    (isAuthority : s.authority = some authority) (headers : HeaderBuf)
    (isHeaders : headers.content = s.headers) (unbuilt : s.Unbuilt) :
    (∃ request, s.build = some request ∧ s.totalLength = some request.length ∧
      ∀ buffer : Bytes, buffer.length = request.length + 1 →
        copyRequest method path authority headers s.body buffer =
          .ok (request ++ buffer.drop request.length, request.length)) ∧
    ∀ port events, EveryState (Upload.step port) ⟨s, [], []⟩ events Upload.Faithful := by
  refine ⟨copyRequest_build isMethod isPath isAuthority headers isHeaders, ?_⟩
  intro port events past isPrefix u reached
  have start : Upload.Kept ⟨s, [], []⟩ := by
    obtain ⟨state, opening⟩ := unbuilt.state
    simp only [Upload.Kept, opening]
    exact Or.inl ⟨unbuilt.request, unbuilt.sent, trivial, trivial⟩
  exact Upload.Kept.faithful (run_invariant (Upload.step port)
    (fun _ _ _ kept taken => kept.step taken) start reached)

def oneHeader : HeaderBuf where
  bytes := some (ascii "accept: text/html\r\n")
  length := 19
  null := by simp
  holds := by
    rintro buf ⟨⟩
    decide

def headedStream : Http2Stream :=
  { connectedStream uploadRequest with headers := ascii "accept: text/html\r\n" }

theorem upload_faithful_headed :
    (∃ request, headedStream.build = some request ∧
      headedStream.totalLength = some request.length ∧
      ∀ buffer : Bytes, buffer.length = request.length + 1 →
        copyRequest (ascii "POST") (ascii "/u") (ascii "a") oneHeader headedStream.body buffer =
          .ok (request ++ buffer.drop request.length, request.length)) ∧
    ∀ port events, EveryState (Upload.step port) ⟨headedStream, [], []⟩ events Upload.Faithful :=
  upload_faithful (by decide) (by decide) (by decide) oneHeader (by decide)
    ⟨⟨.sendingRequest, rfl⟩, rfl, rfl⟩

end ProxyServer.Http2
