import ProxyServer.Http2.Resources
import ProxyServer.Http2.Upload

namespace ProxyServer.Http2
open Lib

def within (m : Slot → Option Nat) (i : Nat) (p : StreamPart → Option Nat) : Slot → Option Nat
  | .stream j part => if j = i then p part else m (.stream j part)
  | .conn => m .conn
  | .session => m .session
  | .streams => m .streams
  | .round n part => m (.round n part)

def keeping (m : Slot → Option Nat) (sources : List Source) : Slot → Option Nat
  | .round n part =>
      if sources.any (·.keeps n part) then some 0 else m (.round n part)
  | .conn => m .conn
  | .session => m .session
  | .streams => m .streams
  | .stream i part => m (.stream i part)

variable {m m' : Slot → Option Nat} {i n : Nat} {p q : StreamPart → Option Nat} {t : Touches}
  {s : Http2Stream}

@[simp]
theorem within_stream (part : StreamPart) : within m i p (.stream i part) = p part := if_pos rfl

theorem within_round (part : RoundPart) : within m i p (.round n part) = m (.round n part) := rfl

@[simp]
theorem update_within_stream (part : StreamPart) (g : Option Nat) :
    Function.update (within m i p) (.stream i part) g = within m i (Function.update p part g) := by
  funext slot
  cases slot with
  | stream j other =>
      by_cases same : j = i
      · subst same
        simp [within, Function.update_apply]
      · simp [within, same]
  | _ => rfl

theorem update_within_round (part : RoundPart) (g : Option Nat) :
    Function.update (within m i p) (.round n part) g =
      within (Function.update m (.round n part) g) i p := by
  funext slot
  cases slot with
  | round k other =>
      by_cases same : Slot.round k other = .round n part
      · rw [same, within, Function.update_self, Function.update_self]
      · rw [within, Function.update_of_ne same, Function.update_of_ne same, within]
  | _ => rfl

theorem moves_drops_stream (m : Slot → Option Nat) (i : Nat) (s : Http2Stream)
    {parts : List StreamPart} (once : parts.Nodup) :
    Moves (within m i s.slots) (s.drops i parts)
      (within m i fun part => if part ∈ parts then none else s.slots part) := by
  have injective : Function.Injective (Slot.stream i) := fun _ _ same => by cases same; rfl
  have drops := moves_drops (within m i s.slots) (once.map injective)
  rw [List.flatMap_map] at drops
  simp only [within_stream] at drops
  refine drops.to ?_
  funext slot
  cases slot with
  | stream j part =>
      by_cases same : j = i
      · subst same
        simp [within, injective.eq_iff]
      · simp [within, same, Ne.symm same]
  | _ => simp [within]

theorem moves_replaces (m : Slot → Option Nat) (i : Nat) (s : Http2Stream) (part : StreamPart) :
    Moves (within m i s.slots) (s.replaces i part)
      (within m i (Function.update s.slots part (some 0))) := by
  have moves := moves_replace (within m i s.slots) (.stream i part) 0
  rwa [within_stream, update_within_stream] at moves

theorem moves_regrow (m : Slot → Option Nat) (i : Nat) (part : StreamPart) {size : Nat}
    (there : p part = mark size) (used needed : Nat) :
    Moves (within m i p) (regrow (.stream i part) size used needed)
      (within m i (Function.update p part (mark (StreamRequest.growBuffer size used needed)))) := by
  rw [regrow, StreamRequest.growBuffer]
  split
  · have moves := moves_replace (within m i p) (.stream i part) (used + needed + 256)
    rw [within_stream, there, update_within_stream] at moves
    exact moves.to (by simp [mark])
  · refine (moves_nil _).to ?_
    rw [← there, Function.update_eq_self]

theorem mark_growBuffer (size : Nat) {used needed : Nat} (some_ : 0 < used + needed) :
    mark (StreamRequest.growBuffer size used needed) =
      some (StreamRequest.growBuffer size used needed) := by
  rw [mark, if_neg]
  rw [StreamRequest.growBuffer]
  split <;> omega

theorem receive_slots (s : Http2Stream) (callback : Callback) : (s.receive callback).slots =
    { s with toStreamRequest := s.toStreamRequest.receive callback }.slots := by
  funext part
  cases part <;> rfl

theorem Callback.moves (m : Slot → Option Nat) (i : Nat) (s : Http2Stream) (callback : Callback) :
    Moves (within m i s.slots) (callback.touches i s) (within m i (s.receive callback).slots) := by
  have self : within m i s.slots (.stream i .self) = some 0 := within_stream .self
  rw [receive_slots]
  cases callback with
  | beginHeaders =>
      refine ((moves_use self).cons (moves_drops_stream m i s (by decide))).to (congrArg _ ?_)
      funext part
      cases part <;> rfl
  | header name value =>
      refine (moves_use self).cons ?_
      simp only [StreamRequest.receive, StreamRequest.onHeader]
      split
      · split_ifs
        · refine (moves_replaces m i s .method).to (congrArg _ ?_)
          funext part
          cases part <;> rfl
        · refine (moves_replaces m i s .path).to (congrArg _ ?_)
          funext part
          cases part <;> rfl
        · refine (moves_replaces m i s .authority).to (congrArg _ ?_)
          funext part
          cases part <;> rfl
        · exact moves_nil _
      · have grown := @moves_regrow s.slots m i .requestBuf _ rfl s.requestBuf.length
          (name.length + 2 + value.length + 2)
        have used := grown.append (moves_use (g := _) (s := .stream i .requestBuf)
          (by rw [within_stream, Function.update_self]; exact mark_growBuffer _ (by omega)))
        refine used.to (congrArg _ ?_)
        funext part
        cases part <;> rfl
  | frameRecv frame =>
      refine (moves_use self).cons ?_
      simp only [StreamRequest.receive, StreamRequest.onFrameRecv]
      split
      · refine (@moves_regrow s.slots m i .body _ rfl s.body.length
          (s.body.length + frame.length)).to (congrArg _ ?_)
        funext part
        cases part <;> rfl
      · exact moves_nil _
  | dataChunk endStream data =>
      have grown := @moves_regrow s.slots m i .body _ rfl s.body.length
        (s.body.length + data.length)
      have used : ∀ q : StreamPart → Option Nat,
          q .body = mark (StreamRequest.growBuffer s.bodySize s.body.length
            (s.body.length + data.length)) →
          Moves (within m i q)
            (if data = [] then []
              else [.use (.stream i .body, StreamRequest.growBuffer s.bodySize s.body.length
                (s.body.length + data.length))]) (within m i q) := by
        intro q sized
        split
        · exact moves_nil _
        · rename_i some_
          have long := List.length_pos_iff.mpr some_
          refine moves_use ?_
          rw [within_stream, sized]
          exact mark_growBuffer _ (by omega)
      refine (((moves_use self).cons grown).append (used _ (Function.update_self ..))).to
        (congrArg _ ?_)
      funext part
      cases part <;> rfl

theorem slots_upstream (s : Http2Stream) (isOpen : Bool) (state : UpstreamState) :
    { s with upstreamFd := isOpen, upstreamSsl := isOpen, upstreamState := state }.slots =
      Function.update (Function.update s.slots .upstreamFd (present isOpen)) .upstreamSsl
        (present isOpen) := by
  funext part
  cases part <;> rfl

theorem initTouches_moves (m : Slot → Option Nat) (i : Nat) {s : Http2Stream}
    (fd : s.upstreamFd = false) (ssl : s.upstreamSsl = false) (port : UInt16)
    (calls : StreamCalls) :
    Moves (within m i s.slots) (Http2Stream.initTouches i calls)
      (within m i (s.initUpstream port calls).stream.slots) := by
  have noFd : s.slots .upstreamFd = none := by simp [Http2Stream.slots, fd, present]
  have noSsl : s.slots .upstreamSsl = none := by simp [Http2Stream.slots, ssl, present]
  have closed : ∀ state, { s with
      upstreamFd := false, upstreamSsl := false, upstreamState := state }.slots = s.slots := by
    intro state
    rw [slots_upstream, present, if_neg Bool.false_ne_true, ← noFd, Function.update_eq_self, noFd,
      ← noSsl, Function.update_eq_self]
  have back : Function.update s.slots .upstreamFd none = s.slots := by
    rw [← noFd, Function.update_eq_self]
  have both : Function.update (Function.update (Function.update s.slots .upstreamFd (some 0))
      .upstreamSsl none) .upstreamFd none = s.slots := by
    rw [Function.update_comm (by decide), Function.update_idem, back, ← noSsl,
      Function.update_eq_self]
  obtain ⟨socketOk, getFlagsOk, setFlagsOk, sslOk, hostent, connect, getsockoptOk, socketError⟩ :=
    calls
  simp only [Http2Stream.initTouches, Http2Stream.initUpstream, http2StreamInit]
  cases socketOk with
  | false => simp [closed, Moves, run]
  | true =>
      cases getFlagsOk with
      | false => simp [closed, Moves, run, Touch.move, noFd, back]
      | true =>
          cases setFlagsOk with
          | false => simp [closed, Moves, run, Touch.move, noFd, back]
          | true =>
              cases sslOk with
              | false => simp [closed, Moves, run, Touch.move, noFd, back]
              | true =>
                  cases hostent with
                  | none => simp [closed, Moves, run, Touch.move, noFd, noSsl, both]
                  | some found =>
                      cases connect with
                      | failed => simp [closed, Moves, run, Touch.move, noFd, noSsl, both]
                      | inProgress =>
                          simp [slots_upstream, present, Moves, run, Touch.move, noFd, noSsl]
                      | ok =>
                          cases getsockoptOk <;> cases socketError <;>
                            simp [slots_upstream, closed, present, Moves, run, Touch.move, noFd,
                              noSsl, both, http2StreamConnecting, Http2Stream.refused]

theorem connecting_moves (m : Slot → Option Nat) (i : Nat) {s : Http2Stream}
    (both : s.upstreamFd = s.upstreamSsl) (calls : StreamCalls) :
    Moves (within m i s.slots)
      (s.connecting i { calls with getsockoptOk := calls.getsockoptOk && s.upstreamFd })
      (within m i (s.connectUpstream calls).stream.slots) := by
  rw [Http2Stream.connecting, Http2Stream.connectUpstream, Http2Stream.refused]
  cases asked : calls.getsockoptOk && s.upstreamFd with
  | false =>
      refine (moves_nil _).to (congrArg _ ?_)
      funext part
      cases part <;> simp [Http2Stream.slots]
  | true =>
      rw [Bool.and_eq_true] at asked
      cases calls.socketError with
      | true =>
          refine (moves_drops_stream m i s (by decide)).to (congrArg _ ?_)
          funext part
          cases part <;> simp [Http2Stream.slots, present]
      | false =>
          have there : within m i s.slots (.stream i .upstreamSsl) = some 0 := by
            simp [Http2Stream.slots, ← both, asked.2, present]
          refine (moves_use there).to (congrArg _ ?_)
          funext part
          cases part <;> simp [Http2Stream.slots]

theorem done_moves (m : Slot → Option Nat) (i : Nat) (s : Http2Stream) (sent : Nat) :
    Moves (within m i s.slots) (s.drops i [.upstreamSsl, .upstreamFd, .upstreamRequest])
      (within m i { s with
        upstreamSsl := false, upstreamFd := false, upstreamRequest := none
        upstreamRequestSent := sent }.slots) := by
  refine (moves_drops_stream m i s (by decide)).to (congrArg _ ?_)
  funext part
  cases part <;> simp [Http2Stream.slots, present]

theorem sendTouches_moves (total sent : Nat) (writes : List UpstreamWrite)
    (request : p .upstreamRequest = some 0) (ssl : sent < total → p .upstreamSsl = some 0) :
    Moves (within m i p) (Http2Stream.sendTouches i total sent writes) (within m i p) := by
  have one (unsent : sent < total) :
      Moves (within m i p) (Http2Stream.sendTouches.oneWrite i) (within m i p) := by
    simp [Http2Stream.sendTouches.oneWrite, Moves, run, Touch.move, request, ssl unsent]
  induction writes generalizing sent with
  | nil =>
      rw [Http2Stream.sendTouches]
      split
      · exact one ‹_›
      · exact moves_nil _
  | cons write writes ih =>
      unfold Http2Stream.sendTouches
      split
      · rename_i unsent
        cases write with
        | took more =>
            exact (one unsent).append (ih _ (fun _ => ssl unsent) fun _ => one unsent)
        | again => exact one unsent
        | failed => exact one unsent
      · exact moves_nil _

theorem buildTouches_moves (m : Slot → Option Nat) (i : Nat) {s : Http2Stream} {request : Bytes}
    (built : s.build = some request) (unbuilt : s.upstreamRequest = none)
    (roomy : s.body.length ≤ s.bodySize) :
    Moves (within m i s.slots) (s.buildTouches i)
      (within m i (Function.update s.slots .upstreamRequest (some 0))) := by
  obtain ⟨method, isMethod, given⟩ := Option.bind_eq_some_iff.mp built
  obtain ⟨path, isPath, given⟩ := Option.bind_eq_some_iff.mp given
  obtain ⟨authority, isAuthority, -⟩ := Option.bind_eq_some_iff.mp given
  have names : Moves (within m i s.slots)
      [.use (.stream i .method, 0), .use (.stream i .path, 0), .use (.stream i .authority, 0),
        .acquire (.stream i .upstreamRequest, 0)]
      (within m i (Function.update s.slots .upstreamRequest (some 0))) := by
    simp [Moves, run, Touch.move, Http2Stream.slots, present, isMethod, isPath, isAuthority,
      unbuilt]
  refine names.append ?_
  split
  · exact moves_nil _
  · rename_i some_
    have long := List.length_pos_iff.mpr some_
    have sized : s.bodySize ≠ 0 := by omega
    exact moves_use (by simp [Http2Stream.slots, mark, sized])

theorem sendRequest_moves (m : Slot → Option Nat) (i : Nat) {s : Http2Stream}
    {writes : List UpstreamWrite} {result : RoundResult} (roomy : s.body.length ≤ s.bodySize)
    (ran : s.sendRequest writes = some result) :
    Moves (within m i s.slots) (s.sendRequestTouches i writes)
      (within m i result.stream.slots) := by
  obtain ⟨request, isRequest, sent⟩ := Option.bind_eq_some_iff.mp ran
  simp only at sent
  split_ifs at sent with broken
  have same : result.stream.slots = Function.update s.slots .upstreamRequest (some 0) := by
    split at sent <;>
      · cases sent
        funext part
        cases part <;> rfl
  have building : Moves (within m i s.slots)
      (if s.upstreamRequest = none then s.buildTouches i else [])
      (within m i (Function.update s.slots .upstreamRequest (some 0))) := by
    split
    · rename_i unbuilt
      rw [unbuilt, Option.none_or] at isRequest
      exact buildTouches_moves m i isRequest unbuilt roomy
    · rename_i built
      have there : s.slots .upstreamRequest = some 0 := by
        simp [Http2Stream.slots, present, Option.isSome_iff_ne_none.mpr built]
      refine (moves_nil _).to ?_
      rw [← there, Function.update_eq_self]
  rw [same, Http2Stream.sendRequestTouches, isRequest]
  refine building.append ?_
  refine sendTouches_moves _ _ writes (Function.update_self ..) fun unsent => ?_
  have connected : s.upstreamSsl = true := by
    by_contra off
    exact broken ⟨unsent, by simpa using off⟩
  simp [Http2Stream.slots, present, connected]

theorem keeping_nil (m : Slot → Option Nat) : keeping m [] = m := by
  funext slot
  cases slot <;> rfl

theorem keeping_cons_tail (m : Slot → Option Nat) (n i size : Nat) (sources : List Source) :
    keeping m (.tail n i size :: sources) =
      Function.update (keeping m sources) (.round n .tail) (some 0) := by
  funext slot
  cases slot with
  | round k part =>
      simp only [keeping, Source.keeps, Source.onHeap, Source.payload, List.any_cons,
        Function.update_apply, Slot.round.injEq]
      grind
  | _ => rfl

theorem keeping_cons_piece (m : Slot → Option Nat) (n : Nat) (sources : List Source) :
    keeping m (.piece n :: sources) =
      Function.update (keeping m sources) (.round n .payload) (some 0) := by
  funext slot
  cases slot with
  | round k part =>
      simp only [keeping, Source.keeps, Source.onHeap, Source.payload, List.any_cons,
        Function.update_apply, Slot.round.injEq]
      grind
  | _ => rfl

theorem keeping_cons_stack (m : Slot → Option Nat) (n : Nat) (data : Option (Slot × Nat))
    (sources : List Source) : keeping m (.stack n data :: sources) = keeping m sources := by
  funext slot
  cases slot with
  | round k part => simp [keeping, Source.keeps, Source.onHeap]
  | _ => rfl

theorem append_slots (s : Http2Stream) (bytes : Bytes) :
    (s.append bytes).slots = Function.update s.slots .upstreamResponseBuf
      (mark (StreamRequest.growBuffer s.upstreamResponseSize s.upstreamResponseBuf.length
        bytes.length)) := by
  funext part
  cases part <;> rfl

theorem submitHeaders_slots (s : Http2Stream) (tail : Bytes) (calls : ReadCalls) :
    (s.submitHeaders tail calls).stream.slots = s.slots := by
  rw [Http2Stream.submitHeaders]
  funext part
  split_ifs <;> cases part <;> rfl

theorem completeHeaders_slots (s : Http2Stream) (calls : ReadCalls) :
    (s.completeHeaders calls).stream.slots = s.slots := by
  rw [Http2Stream.completeHeaders]
  split
  · split
    · exact submitHeaders_slots s _ calls
    · rfl
  · rfl

theorem readData_slots (s : Http2Stream) (bytes : Bytes) (calls : ReadCalls) :
    (s.readData bytes calls).stream.slots = (s.append bytes).slots := by
  rw [Http2Stream.readData]
  split_ifs <;> exact completeHeaders_slots (s.append bytes) calls

theorem readClosed_slots (s : Http2Stream) (calls : CloseCalls) :
    (s.readClosed calls).stream.slots = s.slots := by
  rcases s.readClosed_stream calls with same | done
  · rw [same]
  · rw [done]
    funext part
    cases part <;> rfl

theorem append_moves (m : Slot → Option Nat) (i n : Nat) (s : Http2Stream) {bytes : Bytes}
    (some_ : bytes ≠ []) (held : m (.round n .readBuf) = some 0) :
    Moves (within m i s.slots)
      (regrow (.stream i .upstreamResponseBuf) s.upstreamResponseSize s.upstreamResponseBuf.length
          bytes.length ++
        [.use (.stream i .upstreamResponseBuf, (s.append bytes).upstreamResponseSize),
          .use (.round n .readBuf, 0)])
      (within m i (s.append bytes).slots) := by
  have long := List.length_pos_iff.mpr some_
  rw [append_slots]
  refine (@moves_regrow s.slots m i .upstreamResponseBuf _ rfl s.upstreamResponseBuf.length
    bytes.length).append ?_
  refine (moves_use ?_).cons (moves_use held)
  rw [within_stream, Function.update_self]
  exact mark_growBuffer _ (by omega)

theorem dataEffects_moves (m : Slot → Option Nat) (i n : Nat) (s : Http2Stream) {bytes : Bytes}
    (some_ : bytes ≠ []) (calls : ReadCalls) (unused : ∀ part, m (.round n part) = none) :
    Moves (within (Function.update m (.round n .readBuf) (some 0)) i s.slots)
      (s.dataEffects i n bytes calls).touches
      (within (keeping m (s.dataEffects i n bytes calls).sources) i
        (s.readData bytes calls).stream.slots) := by
  rw [readData_slots, Http2Stream.dataEffects]
  have appended := append_moves (Function.update m (.round n .readBuf) (some 0)) i n s some_
    (Function.update_self ..)
  generalize (s.append bytes).slots = q at appended ⊢
  generalize List.any _ Http2Stream.hasTail = tailed
  generalize regrow _ _ _ _ ++ [_, _] = first at appended ⊢
  dsimp only
  split_ifs <;> rw [List.append_assoc] <;> refine appended.append ?_
  all_goals
    simp [Moves, run, Touch.move, within_round, update_within_round, unused, keeping_nil,
      keeping_cons_tail, keeping_cons_piece]
    congr 1
    funext slot
    simp only [Function.update_apply]
    grind

theorem update_none {slot : Slot} (free : m slot = none) : Function.update m slot none = m := by
  rw [← free, Function.update_eq_self]

theorem closedEffects_moves (m : Slot → Option Nat) (i n : Nat) (s : Http2Stream)
    (calls : CloseCalls) (unused : ∀ part, m (.round n part) = none) :
    Moves (within (Function.update m (.round n .readBuf) (some 0)) i s.slots)
      (s.closedEffects i n calls).touches
      (within (keeping m (s.closedEffects i n calls).sources) i
        (s.readClosed calls).stream.slots) := by
  rw [readClosed_slots, Http2Stream.closedEffects]
  dsimp only
  split_ifs <;>
    simp [Moves, run, Touch.move, within_round, update_within_round, unused, update_none,
      keeping_nil, keeping_cons_stack]

theorem readEffects_moves (m : Slot → Option Nat) (i n : Nat) {s : Http2Stream}
    (ssl : s.upstreamSsl = true) (read : UpstreamRead)
    (unused : ∀ part, m (.round n part) = none) :
    Moves (within m i s.slots) (s.readEffects i n read).touches
      (within (keeping m (s.readEffects i n read).sources) i
        (s.readResponse read).stream.slots) := by
  have opened : Moves (within m i s.slots)
      [.acquire (.round n .readBuf, 0), .use (.stream i .upstreamSsl, 0)]
      (within (Function.update m (.round n .readBuf) (some 0)) i s.slots) := by
    simp [Moves, run, Touch.move, within_round, update_within_round, unused, Http2Stream.slots, ssl,
      present]
  have closed : Moves (within (Function.update m (.round n .readBuf) (some 0)) i s.slots)
      [.release (.round n .readBuf, 0)] (within (keeping m []) i s.slots) := by
    simp [Moves, run, Touch.move, within_round, update_within_round, update_none, unused,
      keeping_nil]
  refine opened.append ?_
  cases read with
  | data piece calls => exact dataEffects_moves m i n s piece.nonempty calls unused
  | again => exact closed
  | closed calls => exact closedEffects_moves m i n s calls unused
  | failed => exact closed

structure Http2Stream.Ready (s : Http2Stream) : Prop where
  connected : s.Connected
  idle : s.upstreamState = .opening .init → s.upstreamFd = false
  roomy : s.body.length ≤ s.bodySize

theorem effects_moves (m : Slot → Option Nat) (i n : Nat) {s : Http2Stream} (ready : s.Ready)
    (active : s.isActive = true) {port : UInt16} {round : Round} {result : RoundResult}
    (ran : s.process port round = some result)
    (unused : ∀ part, m (.round n part) = none) :
    Moves (within m i s.slots) (s.effects i n round).touches
      (within (keeping m (s.effects i n round).sources) i result.stream.slots) := by
  rw [Http2Stream.process_active active] at ran
  rw [Http2Stream.effects]
  cases state : s.upstreamState with
  | opening opening =>
      rw [state] at ran
      cases opening with
      | init =>
          cases ran
          have fd := ready.idle state
          rw [keeping_nil]
          exact initTouches_moves m i fd (ready.connected.both ▸ fd) port round.opening
      | connecting =>
          cases ran
          rw [keeping_nil]
          exact connecting_moves m i ready.connected.both round.opening
      | sendingRequest =>
          rw [keeping_nil]
          exact sendRequest_moves m i ready.roomy ran
  | readingResponse =>
      rw [state] at ran
      cases ran
      exact readEffects_moves m i n (ready.connected.reading state) round.read unused
  | done =>
      rw [state] at ran
      cases ran
      rw [keeping_nil]
      exact done_moves m i s 0

theorem ready_fresh : Http2Stream.fresh.Ready where
  connected := ⟨rfl, fun _ => rfl, by simp [Http2Stream.fresh], by simp [Http2Stream.fresh]⟩
  idle _ := rfl
  roomy := Nat.le_refl _

theorem le_growBuffer {size used needed : Nat} :
    used + needed ≤ StreamRequest.growBuffer size used needed := by
  rw [StreamRequest.growBuffer]
  split <;> omega

theorem Http2Stream.Ready.receive (ready : s.Ready) (callback : Callback) :
    (s.receive callback).Ready := by
  refine ⟨ready.connected.receive callback, ready.idle, ?_⟩
  cases callback with
  | beginHeaders => exact Nat.le_refl _
  | header name value =>
      have same : (s.toStreamRequest.onHeader name value).body = s.body ∧
          (s.toStreamRequest.onHeader name value).bodySize = s.bodySize := by
        rw [StreamRequest.onHeader]
        split_ifs <;> exact ⟨rfl, rfl⟩
      exact same.1 ▸ same.2 ▸ ready.roomy
  | frameRecv frame =>
      change s.body.length ≤ if frame.type = .data then _ else s.bodySize
      split
      · exact (Nat.le_add_right _ _).trans le_growBuffer
      · exact ready.roomy
  | dataChunk endStream data =>
      change (s.body ++ data).length ≤ _
      rw [List.length_append]
      exact (Nat.le_add_left _ _).trans le_growBuffer

theorem Http2Stream.Ready.process (ready : s.Ready) {port : UInt16} {round : Round}
    {result : RoundResult} (ran : s.process port round = some result) : result.stream.Ready := by
  refine ⟨ready.connected.process ran, ?_, process_request ran ▸ ready.roomy⟩
  cases active : s.isActive with
  | false =>
      rw [process_idle active] at ran
      cases ran
      exact ready.idle
  | true =>
      rw [process_active active] at ran
      split at ran
      · cases ran
        intro state
        rw [initUpstream] at state ⊢
        simp only [UpstreamState.opening.injEq] at state
        simp [state]
      · cases ran
        intro state
        rw [connectUpstream, http2StreamConnecting] at state
        split_ifs at state <;> cases state
      · obtain ⟨request, -, sent⟩ := Option.bind_eq_some_iff.mp ran
        rename_i sending
        simp only at sent
        split_ifs at sent
        split at sent <;>
          · cases sent
            intro state
            simp [sending] at state
      · rename_i reading
        cases ran
        intro state
        rcases s.readResponse_state reading round.read with same | same <;>
          simp [same] at state
      · cases ran
        exact fun _ => rfl

end ProxyServer.Http2
