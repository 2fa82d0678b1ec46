import ProxyServer.Http2.Connection

namespace ProxyServer.Http2
open Lib

inductive ClientRead where
  | data (callbacks : List (Nat × Callback)) (processed : Bool)
  | again
  | closed
  | failed

structure LoopTurn where
  read : ClientRead
  rounds : Nat → Round
  sendPending : Bool

def LoopTurn.isData (turn : LoopTurn) : Bool :=
  match turn.read with
  | .data _ _ => true
  | _ => false

structure Session where
  conn : Http2Conn
  active : Bool

namespace Session

def init (targetPort : UInt16) : Session := ⟨.init targetPort, true⟩

def receiveAll (c : Http2Conn) (callbacks : List (Nat × Callback)) : Http2Conn :=
  callbacks.foldl (fun c call => c.receive call.1 call.2) c

/-- One turn. What the loop does after a turn without bytes is never reached: such a turn has left
or restarted the loop before. -/
def step (s : Session) (turn : LoopTurn) : Option Session :=
  if !s.active then none
  else match turn.read with
    | .data callbacks processed =>
        let conn := receiveAll s.conn callbacks
        if !processed then some ⟨conn, false⟩
        else (conn.processStreams turn.rounds).map fun conn => ⟨conn, turn.sendPending⟩
    | .again => some s
    | .closed => some { s with active := false }
    | .failed => some { s with active := false }

end Session

def UpstreamState.rank : UpstreamState → Nat
  | .opening .init => 0
  | .opening .connecting => 0
  | .opening .sendingRequest => 1
  | .readingResponse => 2
  | .done => 3

namespace Http2Stream

def rank (s : Http2Stream) : Nat :=
  s.upstreamState.rank + if s.upstreamHeadersComplete then 1 else 0

structure Staged (s : Http2Stream) : Prop where
  headers : s.upstreamHeadersComplete = true → 2 ≤ s.upstreamState.rank
  response : s.responseComplete = true → s.upstreamState = .done

variable {s : Http2Stream}

theorem staged_fresh : fresh.Staged := ⟨by simp [fresh], by simp [fresh]⟩

theorem rank_le (s : Http2Stream) : s.rank ≤ s.upstreamState.rank + 1 := by
  rw [rank]
  split <;> omega

theorem Staged.bare (staged : s.Staged) (early : s.upstreamState.rank < 2) :
    s.upstreamHeadersComplete = false := by
  by_contra complete
  exact absurd (staged.headers (by simpa using complete)) (Nat.not_le.mpr early)

theorem Staged.open (staged : s.Staged) (open_ : s.upstreamState ≠ .done) :
    s.responseComplete = false := by
  by_contra complete
  exact open_ (staged.response (by simpa using complete))

theorem receive_staged (staged : s.Staged) (callback : Callback) : (s.receive callback).Staged := by
  refine ⟨staged.headers, fun complete => ?_⟩
  rw [receive] at complete
  simp only at complete
  split at complete
  · cases complete
  · exact staged.response complete

theorem process_rank (staged : s.Staged) {port : UInt16} {round : Round} {result : RoundResult}
    (ran : s.process port round = some result) :
    result.stream.Staged ∧ result.stream.rank ≤ s.rank + 1 := by
  unfold process at ran
  split_ifs at ran with incomplete complete
  · cases ran
    exact ⟨staged, Nat.le_succ _⟩
  · cases ran
    exact ⟨staged, Nat.le_succ _⟩
  · split at ran
    · rename_i opening
      cases ran
      have bare := staged.bare (by rw [opening]; decide)
      refine ⟨⟨by simp [initUpstream, bare], by simp [initUpstream, complete]⟩, ?_⟩
      simp only [initUpstream, rank, bare]
      cases (http2StreamInit port round.opening).state <;> simp [UpstreamState.rank]
    · rename_i connecting
      cases ran
      have bare := staged.bare (by rw [connecting]; decide)
      refine ⟨⟨by simp [connectUpstream, bare], by simp [connectUpstream, complete]⟩, ?_⟩
      simp only [connectUpstream, rank, bare]
      cases (http2StreamConnecting .connecting _).state <;> simp [UpstreamState.rank]
    · rename_i sending
      have bare := staged.bare (by rw [sending]; decide)
      obtain ⟨request, -, sent⟩ := Option.bind_eq_some_iff.mp ran
      simp only at sent
      split_ifs at sent
      split at sent
      · cases sent
        exact ⟨⟨by simp [bare], by simp [complete]⟩, by simp [rank]⟩
      · cases sent
        refine ⟨⟨by simp [bare], by simp [complete]⟩, ?_⟩
        simp [rank, bare, sending, UpstreamState.rank]
    · rename_i reading
      cases ran
      have rest : 2 ≤ s.rank := by simp [rank, reading, UpstreamState.rank]
      cases round.read with
      | data piece calls =>
          obtain ⟨-, response, state⟩ := s.readData_frame piece.bytes calls
          rw [reading] at state
          refine ⟨⟨fun _ => by rw [readResponse, state]; decide, ?_⟩, ?_⟩
          · intro answered
            rw [readResponse, response] at answered
            exact absurd answered complete
          · have bound := (s.readData piece.bytes calls).stream.rank_le
            rw [state] at bound
            exact bound.trans (Nat.succ_le_succ rest)
      | again => exact ⟨staged, Nat.le_succ _⟩
      | failed => exact ⟨staged, Nat.le_succ _⟩
      | closed calls =>
          rcases s.readClosed_stream calls with same | same
          · rw [readResponse, same]
            exact ⟨staged, Nat.le_succ _⟩
          · rw [readResponse, same]
            refine ⟨⟨fun _ => by simp [UpstreamState.rank], fun _ => rfl⟩, ?_⟩
            simp only [rank, reading, UpstreamState.rank]
            omega
    · rename_i done
      cases ran
      exact ⟨⟨staged.headers, staged.response⟩, by simp [rank]⟩

end Http2Stream

namespace Http2Conn

def AllStaged (c : Http2Conn) : Prop := ∀ i s, c.streams i = some s → s.Staged

def Upto (c : Http2Conn) (id n : Nat) : Prop := ∀ s, c.streams id = some s → s.rank ≤ n

variable {c d : Http2Conn} {id n : Nat}

theorem receive_stream {i : Nat} {callback : Callback} {s : Http2Stream}
    (found : (c.receive i callback).streams id = some s) :
    c.streams id = some s ∨
      s = ((c.streams id).getD .fresh).receive callback := by
  unfold receive getStream at found
  by_cases same : id = i
  · subst same
    right
    cases there : c.streams id <;> simp [there] at found <;> exact found.symm
  · left
    cases there : c.streams i <;> simpa [there, Function.update_of_ne same] using found

theorem AllStaged.before (staged : c.AllStaged) (id : Nat) :
    ((c.streams id).getD .fresh).Staged := by
  cases there : c.streams id with
  | none => exact Http2Stream.staged_fresh
  | some s => exact staged id s there

theorem Upto.before (upto : c.Upto id n) : ((c.streams id).getD .fresh).rank ≤ n := by
  cases there : c.streams id with
  | none => exact Nat.zero_le n
  | some s => exact upto s there

theorem AllStaged.receive (staged : c.AllStaged) (i : Nat) (callback : Callback) :
    (c.receive i callback).AllStaged := by
  intro j s found
  rcases receive_stream found with old | rfl
  · exact staged j s old
  · exact Http2Stream.receive_staged (staged.before j) callback

theorem Upto.receive (upto : c.Upto id n) (i : Nat) (callback : Callback) :
    (c.receive i callback).Upto id n := by
  intro s found
  rcases receive_stream found with old | rfl
  · exact upto s old
  · exact upto.before

theorem processOne_staged {rounds : Nat → Round} {i : Nat} (staged : c.AllStaged)
    (ran : processOne rounds c i = some d) :
    d.AllStaged ∧ (c.Upto id n → d.Upto id (n + if i = id then 1 else 0)) := by
  unfold processOne at ran
  split at ran
  · cases ran
    exact ⟨staged, fun upto s found => (upto s found).trans (Nat.le_add_right _ _)⟩
  · rename_i stream there
    split at ran
    · obtain ⟨result, processed, same⟩ := Option.bind_eq_some_iff.mp ran
      obtain rfl := Option.some.inj same
      obtain ⟨after, rank⟩ := Http2Stream.process_rank (staged i stream there) processed
      refine ⟨fun j s found => ?_, fun upto s found => ?_⟩
      · by_cases same : j = i
        · subst same
          obtain rfl : result.stream = s := by simpa using found
          exact after
        · exact staged j s (by simpa [Function.update_of_ne same] using found)
      · by_cases same : i = id
        · subst same
          obtain rfl : result.stream = s := by simpa using found
          rw [if_pos rfl]
          exact rank.trans (Nat.succ_le_succ (upto stream there))
        · have old : c.streams id = some s := by
            simpa [Function.update_of_ne (Ne.symm same)] using found
          exact (upto s old).trans (Nat.le_add_right _ _)
    · cases ran
      exact ⟨staged, fun upto s found => (upto s found).trans (Nat.le_add_right _ _)⟩

theorem foldlM_staged {rounds : Nat → Round} {indices : List Nat} (once : indices.Nodup)
    (staged : c.AllStaged) (ran : indices.foldlM (processOne rounds) c = some d) :
    d.AllStaged ∧ (c.Upto id n → d.Upto id (n + if id ∈ indices then 1 else 0)) := by
  induction indices generalizing c n with
  | nil =>
      cases ran
      exact ⟨staged, fun upto s found => (upto s found).trans (Nat.le_add_right _ _)⟩
  | cons i indices ih =>
      obtain ⟨b, first, rest⟩ := Option.bind_eq_some_iff.mp ran
      obtain ⟨absent, later⟩ := List.nodup_cons.mp once
      have between := @processOne_staged c b id n rounds i staged first
      have after := @ih b (n + if i = id then 1 else 0) later between.1 rest
      refine ⟨after.1, fun upto s found => (after.2 (between.2 upto) s found).trans ?_⟩
      by_cases same : i = id
      · subst same
        simp [absent]
      · simp [same, Ne.symm same]

theorem processStreams_staged {rounds : Nat → Round} (staged : c.AllStaged)
    (ran : c.processStreams rounds = some d) : d.AllStaged ∧ (c.Upto id n → d.Upto id (n + 1)) := by
  unfold processStreams at ran
  split at ran
  · obtain ⟨after, upto⟩ := @foldlM_staged c d id n _ _ List.nodup_range staged ran
    refine ⟨after, fun before s found => (upto before s found).trans (Nat.add_le_add_left ?_ n)⟩
    split <;> omega
  · cases ran
    exact ⟨staged, fun upto s found => (upto s found).trans (Nat.le_succ n)⟩

end Http2Conn

namespace Session

variable {s t : Session} {id n : Nat}

theorem receiveAll_staged {c : Http2Conn} (staged : c.AllStaged)
    (callbacks : List (Nat × Callback)) :
    (receiveAll c callbacks).AllStaged ∧
      (c.Upto id n → (receiveAll c callbacks).Upto id n) := by
  induction callbacks generalizing c with
  | nil => exact ⟨staged, fun upto => upto⟩
  | cons call callbacks ih =>
      have rest := ih (staged.receive call.1 call.2)
      exact ⟨rest.1, fun upto => rest.2 (upto.receive call.1 call.2)⟩

theorem step_staged {turn : LoopTurn} (staged : s.conn.AllStaged) (taken : s.step turn = some t) :
    t.conn.AllStaged ∧
      (s.conn.Upto id n → t.conn.Upto id (n + if turn.isData then 1 else 0)) := by
  rw [step] at taken
  split at taken
  · cases taken
  cases read : turn.read with
  | data callbacks processed =>
      have received := @receiveAll_staged id n s.conn staged callbacks
      simp only [read] at taken
      simp only [LoopTurn.isData, read, if_true]
      split at taken
      · cases taken
        exact ⟨received.1, fun upto x found => (received.2 upto x found).trans (Nat.le_succ n)⟩
      · obtain ⟨conn, ran, rfl⟩ := Option.map_eq_some_iff.mp taken
        have processed := @Http2Conn.processStreams_staged _ conn id n _ received.1 ran
        exact ⟨processed.1, fun upto => processed.2 (received.2 upto)⟩
  | again =>
      simp only [read] at taken
      cases taken
      exact ⟨staged, fun upto x found => (upto x found).trans (Nat.le_add_right _ _)⟩
  | closed =>
      simp only [read] at taken
      cases taken
      exact ⟨staged, fun upto x found => (upto x found).trans (Nat.le_add_right _ _)⟩
  | failed =>
      simp only [read] at taken
      cases taken
      exact ⟨staged, fun upto x found => (upto x found).trans (Nat.le_add_right _ _)⟩

theorem run_staged {turns : List LoopTurn} (staged : s.conn.AllStaged)
    (ran : run step s turns = some t) :
    t.conn.AllStaged ∧ (s.conn.Upto id n → t.conn.Upto id (n + turns.countP LoopTurn.isData)) := by
  induction turns generalizing s n with
  | nil =>
      cases ran
      exact ⟨staged, fun upto => upto⟩
  | cons turn turns ih =>
      obtain ⟨b, taken, rest⟩ := Option.bind_eq_some_iff.mp ran
      have first := @step_staged s b id n turn staged taken
      have later := @ih b (n + if turn.isData then 1 else 0) first.1 rest
      refine ⟨later.1, fun upto => ?_⟩
      have reached := later.2 (first.2 upto)
      rwa [Nat.add_assoc, Nat.add_comm (if turn.isData then 1 else 0),
        ← List.countP_cons] at reached

/-- Whatever the upstream does: until the headers of a response can be submitted, the client has
sent something on three times, from when the upstream of the stream was not yet begun, and until
the end of a response with headers four times. -/
theorem answer_needs_reads {port : UInt16} {past more : List LoopTurn} {x : Http2Stream}
    (before : run step (init port) past = some s)
    (unbegun : ∀ x, s.conn.streams id = some x → x.upstreamState.rank = 0)
    (after : run step s more = some t) (stream : t.conn.streams id = some x) :
    (x.upstreamHeadersComplete → 3 ≤ more.countP LoopTurn.isData) ∧
      (x.responseComplete → 3 ≤ more.countP LoopTurn.isData ∧
        (x.upstreamHeadersComplete → 4 ≤ more.countP LoopTurn.isData)) := by
  have none : (init port).conn.AllStaged := fun i y found => by simp [init, Http2Conn.init] at found
  have staged := (@run_staged _ s id 0 past none before).1
  have start : s.conn.Upto id 0 := by
    intro y found
    have bare := (staged id y found).bare (by rw [unbegun y found]; decide)
    simp [Http2Stream.rank, unbegun y found, bare]
  obtain ⟨stagedAfter, upto⟩ := @run_staged s t id 0 more staged after
  have reached := upto start x stream
  obtain ⟨headers, response⟩ := stagedAfter id x stream
  simp only [Http2Stream.rank] at reached
  refine ⟨fun complete => ?_, fun answered => ⟨?_, fun complete => ?_⟩⟩
  · have reading := headers complete
    simp only [complete, if_true] at reached
    omega
  · rw [response answered] at reached
    simp only [UpstreamState.rank] at reached
    omega
  · rw [response answered] at reached
    simp only [UpstreamState.rank, complete, if_true] at reached
    omega

def askingTurns : List LoopTurn :=
  [plainRequest.callbacks.map fun callback => (1, callback), [], []].map fun callbacks =>
    ⟨.data callbacks true,
      fun _ => ⟨connectedRound.opening, [.took 100], .closed ⟨true, true, true⟩⟩, true⟩

theorem answer_needs_reads_three : ∃ t x, run step (init 443) askingTurns = some t ∧
    t.conn.streams 1 = some x ∧ x.responseComplete = true ∧
      3 ≤ askingTurns.countP LoopTurn.isData := by
  have answered : ((run step (init 443) askingTurns).bind fun t => t.conn.streams 1).any
      (·.responseComplete) := by
    decide
  obtain ⟨x, found, complete⟩ := (Option.any_eq_true _ _).mp answered
  obtain ⟨t, after, stream⟩ := Option.bind_eq_some_iff.mp found
  have empty : ∀ x, (init 443).conn.streams 1 = some x → x.upstreamState.rank = 0 := by
    intro x found
    cases found
  exact ⟨t, x, after, stream, complete,
    ((@answer_needs_reads (init 443) t 1 443 [] askingTurns x rfl empty after stream).2 complete).1⟩

end Session

end ProxyServer.Http2
