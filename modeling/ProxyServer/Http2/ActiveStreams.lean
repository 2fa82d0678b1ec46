import ProxyServer.Http2.Connection

namespace ProxyServer.Http2
open Lib

inductive SessionEvent where
  | callback (id : Fin (2 ^ 31)) (callback : Callback)
  | process (rounds : Nat → Round)

def SessionEvent.event : SessionEvent → ConnEvent
  | callback id body => .callback id body
  | process rounds => .process rounds

def Http2Stream.isActive (s : Http2Stream) : Bool := s.requestComplete && !s.responseComplete

namespace Http2Conn

def isActive (c : Http2Conn) (i : Nat) : Bool := (c.streams i).any (·.isActive)

def activeStreams (c : Http2Conn) : Nat := (List.range c.maxStreams).countP c.isActive

end Http2Conn

structure Metered where
  conn : Http2Conn
  http2Requests : Nat
  completed : Nat

namespace Metered

def init (targetPort : UInt16) : Metered := ⟨.init targetPort, 0, 0⟩

def step (m : Metered) (event : SessionEvent) : Option Metered :=
  (m.conn.step event.event).map fun conn =>
    match event with
    | .callback id callback =>
        { conn
          http2Requests := m.http2Requests + if callback.completes then 1 else 0
          completed := m.completed +
            if (conn.request id).requestComplete && !(m.conn.request id).requestComplete then 1
            else 0 }
    | .process _ => { m with conn }

structure Accurate (m : Metered) : Prop where
  active : m.conn.activeStreamsCount = m.conn.activeStreams
  requests : m.http2Requests = m.completed

/-- The end of a request is reported where it is not known yet, and no header block begins while
the stream is active. -/
def Expects (m : Metered) : SessionEvent → Prop
  | .callback id callback =>
      (callback.completes = true → (m.conn.request id).requestComplete = false) ∧
        (callback = .beginHeaders → m.conn.isActive id = false)
  | .process _ => True

end Metered

/-! ## One stream -/

theorem StreamRequest.receive_complete (r : StreamRequest) (callback : Callback) :
    (r.receive callback).requestComplete =
      if callback = .beginHeaders then false else r.requestComplete || callback.completes := by
  cases callback with
  | beginHeaders => rfl
  | header name value =>
      have kept := (r.onHeader_frame name value).2.2
      simpa [receive, Callback.completes] using kept
  | frameRecv frame => simp [receive, onFrameRecv, Callback.completes]
  | dataChunk endStream data => simp [receive, onDataChunk, Callback.completes]

namespace Http2Stream

theorem process_idle {s : Http2Stream} (idle : s.isActive = false) (port : UInt16)
    (round : Round) : s.process port round = some ⟨s, 0, []⟩ := by
  cases complete : s.requestComplete with
  | false => simp [process, complete]
  | true =>
      cases responded : s.responseComplete with
      | true => simp [process, complete, responded]
      | false => simp [isActive, complete, responded] at idle

theorem process_active {s : Http2Stream} (active : s.isActive = true) (port : UInt16)
    (round : Round) : s.process port round = match s.upstreamState with
      | .opening .init => some (s.initUpstream port round.opening)
      | .opening .connecting => some (s.connectUpstream round.opening)
      | .opening .sendingRequest => s.sendRequest round.writes
      | .readingResponse => some (s.readResponse round.read)
      | .done => some
          ⟨{ s with
              upstreamSsl := false
              upstreamFd := false
              upstreamRequest := none
              upstreamRequestSent := 0 }, 0, []⟩ := by
  simp only [isActive, Bool.and_eq_true, Bool.not_eq_true'] at active
  rw [process]
  exact (if_neg (by simp [active.1])).trans (if_neg (by simp [active.2]))

theorem sendRequest_responded {s : Http2Stream} {writes : List UpstreamWrite}
    {result : RoundResult} (ran : s.sendRequest writes = some result) :
    result.stream.responseComplete = s.responseComplete := by
  obtain ⟨request, -, sent⟩ := Option.bind_eq_some_iff.mp ran
  simp only at sent
  split_ifs at sent
  split at sent <;> (cases sent; rfl)

theorem readClosed_responded (s : Http2Stream) (calls : CloseCalls) :
    s.readClosed calls = ⟨s, -1, (s.readClosed calls).submitted⟩ ∨
      s.readClosed calls =
        ⟨{ s with responseComplete := true, upstreamState := .done }, 0,
          (s.readClosed calls).submitted⟩ := by
  unfold readClosed
  simp only
  split_ifs <;> simp

theorem readResponse_responded {s : Http2Stream} {read : UpstreamRead}
    (before : s.responseComplete = false)
    (after : (s.readResponse read).stream.responseComplete = true) :
    (s.readResponse read).ret = 0 ∧ (s.readResponse read).stream =
      { s with responseComplete := true, upstreamState := .done } := by
  cases read with
  | data piece calls =>
      rw [readResponse, (s.readData_frame piece.bytes calls).2.1, before] at after
      cases after
  | again => exact absurd (before.symm.trans after) (by simp)
  | closed calls =>
      rw [readResponse] at after ⊢
      rcases s.readClosed_responded calls with open_ | closed
      · rw [open_] at after
        exact absurd (before.symm.trans after) (by simp)
      · rw [closed]
        exact ⟨rfl, rfl⟩
  | failed => exact absurd (before.symm.trans after) (by simp)

theorem process_responded {s : Http2Stream} {port : UInt16} {round : Round}
    {result : RoundResult} (active : s.isActive = true)
    (ran : s.process port round = some result)
    (after : result.stream.responseComplete = true) :
    s.upstreamState = .readingResponse ∧ result.ret = 0 ∧
      result.stream = { s with responseComplete := true, upstreamState := .done } := by
  have before : s.responseComplete = false := by
    simp only [isActive, Bool.and_eq_true, Bool.not_eq_true'] at active
    exact active.2
  have unanswered : ¬ s.responseComplete = true := by simp [before]
  rw [process_active active] at ran
  split at ran
  · cases ran
    exact absurd after unanswered
  · cases ran
    exact absurd after unanswered
  · rw [sendRequest_responded ran] at after
    exact absurd after unanswered
  · rename_i reading
    cases ran
    obtain ⟨ret, stream⟩ := readResponse_responded before after
    exact ⟨reading, ret, stream⟩
  · cases ran
    exact absurd after unanswered

end Http2Stream

/-! ## The table -/

theorem countP_range_update (active : Nat → Bool) {i n : Nat} (below : i < n) (b : Bool) :
    (List.range n).countP (Function.update active i b) + (active i).toNat =
      (List.range n).countP active + b.toNat := by
  induction n with
  | zero => omega
  | succ n ih =>
      simp only [List.range_succ, List.countP_append, List.countP_singleton]
      by_cases last : i = n
      · subst last
        have others : (List.range i).countP (Function.update active i b) =
            (List.range i).countP active := by
          refine List.countP_congr fun j member => ?_
          rw [Function.update_of_ne (List.mem_range.mp member).ne]
        rw [others, Function.update_self]
        cases b <;> cases active i <;> simp
      · rw [Function.update_of_ne (Ne.symm last)]
        have earlier := ih (by omega)
        omega

theorem countP_range_of_le {active : Nat → Bool} {n m : Nat} (le : n ≤ m)
    (beyond : ∀ i, n ≤ i → active i = false) :
    (List.range m).countP active = (List.range n).countP active := by
  induction m, le using Nat.le_induction with
  | base => rfl
  | succ m le ih => simp [List.range_succ, ih, beyond m le]

namespace Http2Conn

structure Tabled (c : Http2Conn) : Prop where
  within : ∀ i s, c.streams i = some s → i < c.maxStreams
  answered : ∀ i s, c.streams i = some s → s.responseComplete = true → s.requestComplete = true

variable {c d : Http2Conn}

theorem Tabled.beyond (tabled : c.Tabled) {i : Nat} (far : c.maxStreams ≤ i) :
    c.isActive i = false := by
  unfold isActive
  cases found : c.streams i with
  | none => rfl
  | some s => exact absurd (tabled.within i s found) (not_lt.mpr far)

theorem activeStreams_le (c : Http2Conn) : c.activeStreams ≤ c.maxStreams :=
  List.countP_le_length.trans_eq List.length_range

/-! ## A callback -/

def before (c : Http2Conn) (id : Nat) : Http2Stream := (c.streams id).getD .fresh

theorem receive_streams (c : Http2Conn) (id : Nat) (callback : Callback) :
    (c.receive id callback).streams =
      Function.update c.streams id (some ((c.before id).receive callback)) := by
  unfold receive getStream before
  cases found : c.streams id <;> simp [found]

theorem receive_maxStreams (c : Http2Conn) (id : Nat) (callback : Callback) :
    (c.receive id callback).maxStreams = max c.maxStreams (id + 1) := by
  unfold receive getStream
  cases found : c.streams id <;> simp [found]

theorem receive_count (c : Http2Conn) (id : Nat) (callback : Callback) :
    (c.receive id callback).activeStreamsCount =
      c.activeStreamsCount + if callback.completes then 1 else 0 := by
  unfold receive getStream
  cases found : c.streams id <;> simp [found]

theorem receive_isActive (c : Http2Conn) (id : Nat) (callback : Callback) :
    (c.receive id callback).isActive =
      Function.update c.isActive id ((c.before id).receive callback).isActive := by
  funext i
  rw [isActive, receive_streams]
  by_cases same : i = id
  · subst same
    simp
  · rw [Function.update_of_ne same, Function.update_of_ne same, isActive]

theorem before_isActive (c : Http2Conn) (id : Nat) : (c.before id).isActive = c.isActive id := by
  rw [before, isActive]
  cases c.streams id <;> rfl

theorem before_request (c : Http2Conn) (id : Nat) :
    (c.before id).toStreamRequest = c.request id := by
  rw [before, request]
  cases c.streams id <;> rfl

theorem receive_activeStreams (tabled : c.Tabled) (id : Nat) (callback : Callback) :
    (c.receive id callback).activeStreams + (c.isActive id).toNat =
      c.activeStreams + ((c.before id).receive callback).isActive.toNat := by
  have below : id < (c.receive id callback).maxStreams := by
    rw [receive_maxStreams]
    omega
  have larger : (List.range (c.receive id callback).maxStreams).countP c.isActive =
      c.activeStreams := by
    refine countP_range_of_le ?_ fun i far => tabled.beyond far
    rw [receive_maxStreams]
    exact le_max_left _ _
  rw [activeStreams, receive_isActive, countP_range_update _ below, larger]

theorem Tabled.receive (tabled : c.Tabled) (id : Nat) (callback : Callback) :
    (c.receive id callback).Tabled where
  within i s found := by
    rw [receive_maxStreams]
    rw [receive_streams] at found
    by_cases same : i = id
    · omega
    · rw [Function.update_of_ne same] at found
      have := tabled.within i s found
      omega
  answered i s found responded := by
    rw [receive_streams] at found
    by_cases same : i = id
    · subst same
      rw [Function.update_self] at found
      cases found
      rw [Http2Stream.receive] at responded ⊢
      simp only at responded ⊢
      rw [StreamRequest.receive_complete]
      split at responded
      · cases responded
      · rename_i later
        rw [if_neg later, Bool.or_eq_true]
        left
        rw [before] at responded ⊢
        cases old : c.streams i with
        | none => simp [old, Http2Stream.fresh] at responded
        | some t =>
            rw [old] at responded
            exact tabled.answered i t old responded
    · rw [Function.update_of_ne same] at found
      exact tabled.answered i s found responded

/-! ## The loop -/

theorem processOne_cases {rounds : Nat → Round} {i : Nat}
    (ran : processOne rounds c i = some d) :
    d = c ∨ ∃ s result, c.streams i = some s ∧ s.isActive = true ∧
      s.process c.targetPort (rounds i) = some result ∧
      d = { c with
        streams := Function.update c.streams i (some result.stream)
        activeStreamsCount :=
          if result.ret = 0 ∧ result.stream.responseComplete then
            toSize (c.activeStreamsCount - 1)
          else c.activeStreamsCount } := by
  unfold processOne at ran
  split at ran
  · exact Or.inl (Option.some.inj ran).symm
  · rename_i s found
    split at ran
    · rename_i active
      obtain ⟨result, processed, same⟩ := Option.bind_eq_some_iff.mp ran
      exact Or.inr ⟨s, result, found, active, processed, (Option.some.inj same).symm⟩
    · exact Or.inl (Option.some.inj ran).symm

theorem Tabled.processOne (tabled : c.Tabled) {rounds : Nat → Round} {i : Nat}
    (ran : processOne rounds c i = some d) : d.Tabled := by
  rcases processOne_cases ran with rfl | ⟨s, result, found, active, processed, rfl⟩
  · exact tabled
  · constructor
    · intro j t there
      change Function.update c.streams i _ j = some t at there
      by_cases same : j = i
      · exact same ▸ tabled.within i s found
      · rw [Function.update_of_ne same] at there
        exact tabled.within j t there
    · intro j t there responded
      change Function.update c.streams i _ j = some t at there
      by_cases same : j = i
      · subst same
        rw [Function.update_self] at there
        cases there
        rw [Http2Stream.process_request processed]
        rw [Http2Stream.isActive, Bool.and_eq_true] at active
        exact active.1
      · rw [Function.update_of_ne same] at there
        exact tabled.answered j t there responded

theorem toSize_pred {n : Nat} (positive : 0 < n) (small : n ≤ 2 ^ 31) :
    toSize ((n : Int) - 1) = n - 1 := by
  rw [toSize]
  omega

theorem processOne_activeStreams (tabled : c.Tabled) (small : c.maxStreams ≤ 2 ^ 31)
    (counted : c.activeStreamsCount = c.activeStreams) {rounds : Nat → Round} {i : Nat}
    (ran : Http2Conn.processOne rounds c i = some d) :
    d.activeStreamsCount = d.activeStreams := by
  rcases processOne_cases ran with rfl | ⟨s, result, found, active, processed, rfl⟩
  · exact counted
  · have below := tabled.within i s found
    have was : c.isActive i = true := by
      rw [isActive, found]
      exact active
    have now (count : Nat) :
        ({ c with
            streams := Function.update c.streams i (some result.stream)
            activeStreamsCount := count } : Http2Conn).isActive =
          Function.update c.isActive i result.stream.isActive := by
      funext j
      by_cases same : j = i
      · subst same
        simp [isActive]
      · simp [isActive, Function.update_of_ne same]
    have moved := countP_range_update c.isActive below result.stream.isActive
    have most := c.activeStreams_le
    rw [was, Bool.toNat_true] at moved
    rw [activeStreams, now]
    change _ + 1 = c.activeStreams + _ at moved
    have request := Http2Stream.process_request processed
    have complete : result.stream.requestComplete = true := by
      rw [request]
      rw [Http2Stream.isActive, Bool.and_eq_true] at active
      exact active.1
    cases responded : result.stream.responseComplete with
    | false =>
        rw [Http2Stream.isActive, complete, responded, Bool.not_false, Bool.and_true,
          Bool.toNat_true] at moved
        rw [Http2Stream.isActive, complete, responded, Bool.not_false, Bool.and_true]
        simp only [Bool.false_eq_true, and_false, if_false]
        omega
    | true =>
        have ret := (Http2Stream.process_responded active processed responded).2.1
        rw [Http2Stream.isActive, complete, responded, Bool.not_true, Bool.and_false,
          Bool.toNat_false] at moved
        rw [Http2Stream.isActive, complete, responded, Bool.not_true, Bool.and_false]
        simp only [ret, and_self, if_true]
        rw [counted, toSize_pred (by omega) (by omega)]
        omega

end Http2Conn

/-! ## Runs -/

namespace Metered

def Sound (m : Metered) : Prop := m.conn.Tabled ∧ m.conn.maxStreams ≤ 2 ^ 31

theorem processOne_sound {c d : Http2Conn} {rounds : Nat → Round} {i : Nat}
    (sound : c.Tabled ∧ c.maxStreams ≤ 2 ^ 31) (ran : Http2Conn.processOne rounds c i = some d) :
    d.Tabled ∧ d.maxStreams ≤ 2 ^ 31 := by
  refine ⟨sound.1.processOne ran, ?_⟩
  rcases Http2Conn.processOne_cases ran with rfl | ⟨s, result, -, -, -, rfl⟩
  · exact sound.2
  · exact sound.2

theorem step_sound {m n : Metered} {event : SessionEvent} (sound : m.Sound)
    (taken : m.step event = some n) : n.Sound := by
  obtain ⟨conn, stepped, rfl⟩ := Option.map_eq_some_iff.mp taken
  cases event with
  | callback id callback =>
      cases stepped
      refine ⟨sound.1.receive id callback, ?_⟩
      have known := sound.2
      have small := id.isLt
      change (m.conn.receive id callback).maxStreams ≤ 2 ^ 31
      rw [Http2Conn.receive_maxStreams]
      omega
  | process rounds =>
      exact Http2Conn.processStreams_keeps (fun c => c.Tabled ∧ c.maxStreams ≤ 2 ^ 31)
        (fun _ _ _ kept ran => processOne_sound kept ran) sound stepped

theorem process_accurate {m n : Metered} {rounds : Nat → Round} (sound : m.Sound)
    (accurate : m.Accurate) (taken : m.step (.process rounds) = some n) : n.Accurate := by
  obtain ⟨conn, stepped, rfl⟩ := Option.map_eq_some_iff.mp taken
  have both := Http2Conn.processStreams_keeps
    (fun c => (c.Tabled ∧ c.maxStreams ≤ 2 ^ 31) ∧
      c.activeStreamsCount = c.activeStreams)
    (fun _ _ _ kept ran => ⟨processOne_sound kept.1 ran,
      Http2Conn.processOne_activeStreams kept.1.1 kept.1.2 kept.2 ran⟩)
    ⟨sound, accurate.active⟩ stepped
  exact ⟨both.2, accurate.requests⟩

theorem callback_accurate {m : Metered} (tabled : m.conn.Tabled) (accurate : m.Accurate)
    (id : Fin (2 ^ 31)) (callback : Callback) :
    (∀ n, m.step (.callback id callback) = some n → n.Accurate) ↔
      m.Expects (.callback id callback) := by
  have moved := Http2Conn.receive_activeStreams tabled id callback
  have counts := Http2Conn.receive_count m.conn id callback
  have was := m.conn.before_isActive id
  have request := m.conn.before_request id
  have answered : (m.conn.before id).responseComplete = true →
      (m.conn.before id).requestComplete = true := by
    rw [Http2Conn.before]
    cases found : m.conn.streams id with
    | none => simp [Http2Stream.fresh]
    | some s => exact tabled.answered id s found
  have only : (∀ n, m.step (.callback id callback) = some n → n.Accurate) ↔
      (m.conn.receive id callback).activeStreamsCount =
          (m.conn.receive id callback).activeStreams ∧
        m.http2Requests + (if callback.completes then 1 else 0) = m.completed +
          if ((m.conn.receive id callback).request id).requestComplete &&
            !(m.conn.request id).requestComplete then 1 else 0 := by
    constructor
    · intro all
      obtain ⟨active, requests⟩ := all _ rfl
      exact ⟨active, requests⟩
    · rintro ⟨active, requests⟩ n ⟨⟩
      exact ⟨active, requests⟩
  rw [only, counts, accurate.active, accurate.requests, Expects, Http2Conn.receive_request,
    if_pos rfl, ← request, StreamRequest.receive_complete]
  rw [← was] at moved ⊢
  generalize m.conn.before id = s at *
  by_cases begins : callback = .beginHeaders
  · subst begins
    have now : (s.receive .beginHeaders).isActive = false := rfl
    rw [now] at moved
    cases active : s.isActive with
    | false => simp_all [Callback.completes]
    | true => simp_all [Callback.completes]; omega
  · have now : (s.receive callback).isActive =
        ((s.requestComplete || callback.completes) && !s.responseComplete) := by
      simp [Http2Stream.isActive, Http2Stream.receive, StreamRequest.receive_complete, begins]
    rw [now] at moved
    simp only [begins, if_false, false_implies, and_true]
    cases ends : callback.completes with
    | false =>
        simp only [ends, Bool.or_false] at moved ⊢
        simp [Http2Stream.isActive] at moved ⊢
        omega
    | true =>
        cases complete : s.requestComplete with
        | false =>
            have unanswered : s.responseComplete = false :=
              Bool.eq_false_iff.mpr fun responded => by simp [answered responded] at complete
            simp [Http2Stream.isActive, ends, complete, unanswered] at moved ⊢
            omega
        | true => simp

end Metered

theorem activeStreams_iff (targetPort : UInt16) (events : List SessionEvent) :
    EveryState Metered.step (.init targetPort) events Metered.Accurate ↔
      EveryStep Metered.step (.init targetPort) events Metered.Expects := by
  refine everyState_iff_of_step Metered.step Metered.Sound ?_ ?_ ?_ ?_
  · intro m event n sound taken
    exact Metered.step_sound sound taken
  · intro m event sound accurate
    cases event with
    | callback id callback => exact Metered.callback_accurate sound.1 accurate id callback
    | process rounds =>
        refine iff_of_true ?_ trivial
        intro n taken
        exact Metered.process_accurate sound accurate taken
  · refine ⟨⟨?_, ?_⟩, Nat.zero_le _⟩ <;> simp [Metered.init, Http2Conn.init]
  · exact ⟨rfl, rfl⟩

def postRequest : Http2Request := { plainRequest with frames := [⟨[ascii "A"], 0⟩] }

theorem post_counted_twice :
    let posted := postRequest.callbacks.map (SessionEvent.callback 1)
    (run Metered.step (.init 443) posted).map (fun m => (m.conn.activeStreamsCount,
        m.conn.activeStreams, m.http2Requests, m.completed)) = some (2, 1, 2, 1) ∧
      ¬ EveryState Metered.step (.init 443) posted Metered.Accurate := by
  have counts : (run Metered.step (.init 443)
      (postRequest.callbacks.map (SessionEvent.callback 1))).map (fun m =>
        (m.conn.activeStreamsCount, m.conn.activeStreams, m.http2Requests, m.completed)) =
      some (2, 1, 2, 1) := by
    decide
  refine ⟨counts, ?_⟩
  intro all
  obtain ⟨m, ran, found⟩ := Option.map_eq_some_iff.mp counts
  have accurate := (all _ (List.prefix_refl _) m ran).active
  simp only [Prod.mk.injEq] at found
  omega

end ProxyServer.Http2
