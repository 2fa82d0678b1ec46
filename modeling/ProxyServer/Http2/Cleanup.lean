import ProxyServer.Http2.ActiveStreams

namespace ProxyServer.Http2
open Lib

namespace Http2Stream

structure Released (s : Http2Stream) : Prop where
  fd : s.upstreamFd = false
  ssl : s.upstreamSsl = false

structure Connected (s : Http2Stream) : Prop where
  both : s.upstreamFd = s.upstreamSsl
  unsent : s.upstreamState = .opening .init ∨ s.upstreamState = .opening .connecting ∨
    s.upstreamState = .opening .sendingRequest ∧ s.upstreamSsl = false →
      s.upstreamRequestSent = 0
  reading : s.upstreamState = .readingResponse → s.upstreamSsl = true
  request : s.upstreamRequest ≠ some []

end Http2Stream

def StartsOver (callbacks : List Callback) : Prop :=
  .beginHeaders ∈ callbacks ∧
    (callbacks.rtakeWhile (· ≠ .beginHeaders)).any Callback.completes = true

def ConnEvent.isCallback : ConnEvent → Bool
  | .callback _ _ => true
  | .process _ => false

namespace Http2Conn

def responded (c : Http2Conn) (id : Nat) : Bool := (c.streams id).any (·.responseComplete)

def Released (c : Http2Conn) (id : Nat) : Prop := ∀ s, c.streams id = some s → s.Released

end Http2Conn

/-- In a run with these events, an iteration of the loop completes the response of the stream, and
after the callbacks `between` the next iteration goes from `before` to `after`. -/
def NextIteration (targetPort : UInt16) (id : Nat) (events between : List ConnEvent)
    (before after : Http2Conn) : Prop :=
  ∃ past rounds next c d, past ++ .process rounds :: between ++ [.process next] <+: events ∧
    (∀ event ∈ between, event.isCallback = true) ∧
    run Http2Conn.step (.init targetPort) past = some c ∧ c.responded id = false ∧
    c.step (.process rounds) = some d ∧ d.responded id = true ∧
    run Http2Conn.step d between = some before ∧ before.step (.process next) = some after

def ReleasesFinished (targetPort : UInt16) (id : Nat) (events : List ConnEvent) : Prop :=
  ∀ between before after, NextIteration targetPort id events between before after →
    after.Released id

/-- Between the two the stream has been given another request, and the loop looks at the
streams. -/
def StartsOverEach (targetPort : UInt16) (id : Nat) (events : List ConnEvent) : Prop :=
  ∀ between before after, NextIteration targetPort id events between before after →
    StartsOver (callbacksOf id between) ∧ 0 < before.activeStreamsCount

namespace Http2Stream

variable {s : Http2Stream}

theorem receive_flags (s : Http2Stream) (callbacks : List Callback) :
    let t := callbacks.foldl receive s
    (Callback.beginHeaders ∉ callbacks → t.responseComplete = s.responseComplete) ∧
      (Callback.beginHeaders ∈ callbacks → t.responseComplete = false ∧ t.requestComplete =
        (callbacks.rtakeWhile (· ≠ .beginHeaders)).any Callback.completes) := by
  induction callbacks using List.reverseRecOn with
  | nil => simp
  | append_singleton callbacks callback ih =>
      simp only [List.foldl_append, List.foldl_cons, List.foldl_nil]
      generalize callbacks.foldl receive s = t at *
      obtain ⟨without, within⟩ := ih
      by_cases begins : callback = .beginHeaders
      · subst begins
        refine ⟨fun absent => absurd absent (by simp), fun _ => ⟨rfl, ?_⟩⟩
        rw [List.rtakeWhile_concat_neg _ _ _ (by simp)]
        rfl
      · have kept : (t.receive callback).responseComplete = t.responseComplete := by
          simp [receive, begins]
        have complete : (t.receive callback).requestComplete =
            (t.requestComplete || callback.completes) := by
          simp [receive, StreamRequest.receive_complete, begins]
        rw [kept, complete, List.rtakeWhile_concat_pos _ _ _ (by simpa using begins)]
        simp only [List.mem_append, List.mem_singleton, Ne.symm begins, or_false, List.any_append,
          List.any_cons, List.any_nil, Bool.or_false]
        refine ⟨without, fun member => ⟨(within member).1, ?_⟩⟩
        rw [(within member).2]

theorem receive_active (s : Http2Stream) {callbacks : List Callback}
    (responded : s.responseComplete = true) :
    (callbacks.foldl receive s).isActive = true ↔ StartsOver callbacks := by
  obtain ⟨without, within⟩ := receive_flags s callbacks
  rw [isActive, StartsOver]
  by_cases begins : Callback.beginHeaders ∈ callbacks
  · rw [(within begins).1, (within begins).2]
    simp [begins]
  · rw [without begins, responded]
    simp [begins]

theorem receive_upstream (s : Http2Stream) (callbacks : List Callback) :
    let t := callbacks.foldl receive s
    t.upstreamFd = s.upstreamFd ∧ t.upstreamSsl = s.upstreamSsl ∧
      t.upstreamState = s.upstreamState := by
  induction callbacks using List.reverseRecOn with
  | nil => exact ⟨rfl, rfl, rfl⟩
  | append_singleton callbacks callback ih =>
      rw [List.foldl_append]
      exact ih

theorem Connected.receive (connected : s.Connected) (callback : Callback) :
    (s.receive callback).Connected :=
  ⟨connected.both, connected.unsent, connected.reading, connected.request⟩

theorem build_ne_nil {r : StreamRequest} {request : Bytes} (built : r.build = some request) :
    request ≠ [] := by
  obtain ⟨method, -, rest⟩ := Option.bind_eq_some_iff.mp built
  obtain ⟨path, -, rest⟩ := Option.bind_eq_some_iff.mp rest
  obtain ⟨authority, -, same⟩ := Option.bind_eq_some_iff.mp rest
  obtain rfl := Option.some.inj same
  simp [ascii]

theorem Connected.sendRequest (connected : s.Connected)
    (sending : s.upstreamState = .opening .sendingRequest) {writes : List UpstreamWrite}
    {result : RoundResult} (ran : s.sendRequest writes = some result) :
    result.stream.Connected := by
  obtain ⟨request, given, sent⟩ := Option.bind_eq_some_iff.mp ran
  have nonempty : request ≠ [] := by
    cases built : s.upstreamRequest with
    | none =>
        rw [built, Option.none_or] at given
        exact build_ne_nil given
    | some kept =>
        rw [built, Option.some_or, Option.some.injEq] at given
        rw [← given]
        exact fun empty => connected.request (by rw [built, empty])
  have positive := List.length_pos_of_ne_nil nonempty
  simp only at sent
  split at sent
  · cases sent
  · rename_i possible
    have ssl : s.upstreamSsl = true := by
      cases ssl : s.upstreamSsl with
      | true => rfl
      | false =>
          have unsent := connected.unsent (Or.inr (Or.inr ⟨sending, ssl⟩))
          exact absurd ⟨by omega, ssl⟩ possible
    have kept : some request ≠ some [] := fun empty => nonempty (Option.some.inj empty)
    split at sent
    · cases sent
      exact ⟨connected.both, by simp [sending, ssl], by simp [sending], kept⟩
    · cases sent
      exact ⟨connected.both, by simp, fun _ => ssl, kept⟩

theorem Connected.process (connected : s.Connected) {port : UInt16} {round : Round}
    {result : RoundResult} (ran : s.process port round = some result) :
    result.stream.Connected := by
  cases active : s.isActive with
  | false =>
      rw [process_idle active] at ran
      cases ran
      exact connected
  | true =>
      rw [process_active active] at ran
      split at ran
      · rename_i state
        cases ran
        have unsent := connected.unsent (Or.inl state)
        exact ⟨rfl, fun _ => unsent, by simp [initUpstream], connected.request⟩
      · rename_i state
        cases ran
        have unsent := connected.unsent (Or.inr (Or.inl state))
        refine ⟨?_, fun _ => unsent, by simp [connectUpstream], connected.request⟩
        simp [connectUpstream, connected.both]
      · rename_i state
        exact connected.sendRequest state ran
      · rename_i state
        cases ran
        have ssl := connected.reading state
        cases round.read with
        | data piece calls =>
            obtain ⟨complete, status, buf, size, same⟩ := s.readData_stream piece.bytes calls
            rw [readResponse, same]
            exact ⟨connected.both, connected.unsent, connected.reading, connected.request⟩
        | again => exact connected
        | closed calls =>
            rw [readResponse]
            rcases s.readClosed_stream calls with same | done
            · rw [same]
              exact connected
            · rw [done]
              exact ⟨connected.both, by simp, fun _ => ssl, connected.request⟩
        | failed => exact connected
      · rename_i state
        cases ran
        exact ⟨rfl, fun _ => rfl, by simp [state], by simp⟩

end Http2Stream

namespace Http2Conn

variable {c d : Http2Conn}

theorem processOne_other {rounds : Nat → Round} {i id : Nat} (other : id ≠ i)
    (ran : processOne rounds c i = some d) : d.streams id = c.streams id := by
  rcases processOne_cases ran with rfl | ⟨s, result, -, -, -, rfl⟩
  · rfl
  · exact Function.update_of_ne other ..

theorem processOne_port {rounds : Nat → Round} {i : Nat}
    (ran : processOne rounds c i = some d) : d.targetPort = c.targetPort := by
  rcases processOne_cases ran with rfl | ⟨s, result, -, -, -, rfl⟩ <;> rfl

theorem processOne_stream {rounds : Nat → Round} {id : Nat} {s : Http2Stream}
    (found : c.streams id = some s) (ran : processOne rounds c id = some d) :
    ∃ result, s.process c.targetPort (rounds id) = some result ∧
      d.streams id = some result.stream := by
  simp only [processOne, found] at ran
  split at ran
  · obtain ⟨result, processed, same⟩ := Option.bind_eq_some_iff.mp ran
    obtain rfl := Option.some.inj same
    exact ⟨result, processed, by simp⟩
  · rename_i idle
    obtain rfl := Option.some.inj ran
    exact ⟨⟨s, 0, []⟩, Http2Stream.process_idle (Bool.eq_false_iff.mpr idle) .., found⟩

theorem processStreams_stream {rounds : Nat → Round} (ran : c.processStreams rounds = some d)
    (counted : 0 < c.activeStreamsCount) {id : Nat} (below : id < c.maxStreams)
    {s : Http2Stream} (found : c.streams id = some s) :
    ∃ result, s.process c.targetPort (rounds id) = some result ∧
      d.streams id = some result.stream := by
  rw [processStreams, if_pos counted] at ran
  have listed : id ∈ List.range c.maxStreams := List.mem_range.mpr below
  have once : (List.range c.maxStreams).Nodup := List.nodup_range
  generalize List.range c.maxStreams = indices at ran listed once
  clear counted below
  have untouched (indices : List Nat) (absent : id ∉ indices) {b e : Http2Conn}
      (ran : indices.foldlM (processOne rounds) b = some e) : e.streams id = b.streams id := by
    induction indices generalizing b with
    | nil =>
        cases ran
        rfl
    | cons i indices ih =>
        obtain ⟨m, first, rest⟩ := Option.bind_eq_some_iff.mp ran
        rw [List.mem_cons, not_or] at absent
        rw [ih absent.2 rest, processOne_other absent.1 first]
  induction indices generalizing c with
  | nil => cases listed
  | cons i indices ih =>
      obtain ⟨b, first, rest⟩ := Option.bind_eq_some_iff.mp ran
      obtain ⟨fresh, later⟩ := List.nodup_cons.mp once
      by_cases turn : id = i
      · subst turn
        obtain ⟨result, processed, stream⟩ := processOne_stream found first
        exact ⟨result, processed, (untouched indices fresh rest).trans stream⟩
      · rw [← processOne_port first]
        exact ih ((processOne_other turn first).trans found) rest
          ((List.mem_cons.mp listed).resolve_left turn) later

theorem processStreams_absent {rounds : Nat → Round} (ran : c.processStreams rounds = some d)
    {id : Nat} (absent : c.streams id = none) : d.streams id = none := by
  refine processStreams_keeps (fun e => e.streams id = none) ?_ absent ran
  intro b i e none turn
  rcases processOne_cases turn with rfl | ⟨s, result, found, -, -, rfl⟩
  · exact none
  · have other : id ≠ i := fun same => by simp [← same, none] at found
    exact (Function.update_of_ne other ..).trans none

structure Sound (c : Http2Conn) : Prop where
  tabled : c.Tabled
  connected : ∀ i s, c.streams i = some s → s.Connected

theorem Sound.receive (sound : c.Sound) (id : Nat) (callback : Callback) :
    (c.receive id callback).Sound := by
  refine ⟨sound.tabled.receive id callback, ?_⟩
  intro i s found
  rw [receive_streams] at found
  by_cases same : i = id
  · subst same
    rw [Function.update_self] at found
    cases found
    apply Http2Stream.Connected.receive
    rw [before]
    cases old : c.streams i with
    | none => exact ⟨rfl, fun _ => rfl, by simp [Http2Stream.fresh], by simp [Http2Stream.fresh]⟩
    | some s => exact sound.connected i s old
  · rw [Function.update_of_ne same] at found
    exact sound.connected i s found

theorem Sound.processOne (sound : c.Sound) {rounds : Nat → Round} {i : Nat}
    (ran : processOne rounds c i = some d) : d.Sound := by
  refine ⟨sound.tabled.processOne ran, ?_⟩
  rcases processOne_cases ran with rfl | ⟨s, result, found, -, processed, rfl⟩
  · exact sound.connected
  · intro j t there
    change Function.update c.streams i _ j = some t at there
    by_cases same : j = i
    · subst same
      rw [Function.update_self] at there
      cases there
      exact (sound.connected j s found).process processed
    · rw [Function.update_of_ne same] at there
      exact sound.connected j t there

theorem Sound.step (sound : c.Sound) {event : ConnEvent} (taken : c.step event = some d) :
    d.Sound := by
  cases event with
  | callback id callback =>
      cases taken
      exact sound.receive id callback
  | process rounds =>
      exact processStreams_keeps _ (fun _ _ _ kept ran => kept.processOne ran) sound taken

theorem init_sound (targetPort : UInt16) : (init targetPort).Sound := by
  refine ⟨⟨?_, ?_⟩, ?_⟩ <;> simp [init]

theorem run_callbacks {events : List ConnEvent} (all : ∀ event ∈ events, event.isCallback = true)
    (ran : run step c events = some d) {id : Nat} {s : Http2Stream}
    (found : c.streams id = some s) :
    d.streams id = some ((callbacksOf id events).foldl Http2Stream.receive s) := by
  induction events generalizing c s with
  | nil =>
      cases ran
      exact found
  | cons event events ih =>
      obtain ⟨b, first, rest⟩ := Option.bind_eq_some_iff.mp ran
      rw [List.forall_mem_cons] at all
      cases event with
      | process rounds => cases all.1
      | callback i callback =>
          cases first
          by_cases same : i = id
          · subst same
            have now : (c.receive i callback).streams i = some (s.receive callback) := by
              rw [receive_streams, Function.update_self, before, found]
              rfl
            simpa [callbacksOf] using ih all.2 rest now
          · have now : (c.receive i callback).streams id = some s := by
              rw [receive_streams, Function.update_of_ne (Ne.symm same), found]
            simpa [callbacksOf, same] using ih all.2 rest now

theorem finish_open (sound : c.Sound) {rounds : Nat → Round}
    (ran : c.processStreams rounds = some d) {id : Nat} (before : c.responded id = false)
    (after : d.responded id = true) :
    ∃ t, d.streams id = some t ∧ t.responseComplete = true ∧ t.upstreamState = .done ∧
      t.upstreamFd = true := by
  have present : c.streams id ≠ none := by
    intro absent
    simp [responded, processStreams_absent ran absent] at after
  obtain ⟨s, found⟩ := Option.ne_none_iff_exists'.mp present
  have pending : s.responseComplete = false := by simpa [responded, found] using before
  have counted : 0 < c.activeStreamsCount := by
    by_contra none
    rw [processStreams, if_neg none] at ran
    cases ran
    exact absurd (before.symm.trans after) (by simp)
  obtain ⟨result, processed, stream⟩ :=
    processStreams_stream ran counted (sound.tabled.within id s found) found
  have done : result.stream.responseComplete = true := by simpa [responded, stream] using after
  have active : s.isActive = true := by
    cases active : s.isActive with
    | true => rfl
    | false =>
        rw [Http2Stream.process_idle active] at processed
        cases processed
        exact absurd (pending.symm.trans done) (by simp)
  obtain ⟨reading, -, isDone⟩ := Http2Stream.process_responded active processed done
  refine ⟨_, stream, done, by rw [isDone], ?_⟩
  rw [isDone]
  exact (sound.connected id s found).both.trans ((sound.connected id s found).reading reading)

end Http2Conn

theorem nextIteration_released {targetPort : UInt16} {id : Nat} {events between : List ConnEvent}
    {before after : Http2Conn} (given : NextIteration targetPort id events between before after) :
    after.Released id ↔
      StartsOver (callbacksOf id between) ∧ 0 < before.activeStreamsCount := by
  obtain ⟨past, rounds, next, c, d, -, all, reached, pending, finished, responded, later, last⟩ :=
    given
  have sound : c.Sound := run_invariant Http2Conn.step (fun _ _ _ kept taken => kept.step taken)
    (Http2Conn.init_sound targetPort) reached
  have soundBefore : before.Sound := run_invariant Http2Conn.step
    (fun _ _ _ kept taken => kept.step taken) (sound.step finished) later
  obtain ⟨t, found, complete, state, fd⟩ :=
    Http2Conn.finish_open sound finished pending responded
  have now := Http2Conn.run_callbacks all later found
  obtain ⟨keptFd, keptSsl, keptState⟩ := t.receive_upstream (callbacksOf id between)
  rw [← t.receive_active complete]
  generalize (callbacksOf id between).foldl Http2Stream.receive t = u at *
  have held : u.upstreamFd ≠ false := by simp [keptFd, fd]
  by_cases counted : 0 < before.activeStreamsCount
  · obtain ⟨result, processed, stream⟩ := Http2Conn.processStreams_stream last counted
      (soundBefore.tabled.within id u now) now
    simp only [counted, and_true]
    cases active : u.isActive with
    | false =>
        rw [Http2Stream.process_idle active] at processed
        cases processed
        simp only [Bool.false_eq_true, iff_false]
        exact fun released => held (released u stream).fd
    | true =>
        rw [Http2Stream.process_active active, keptState, state] at processed
        cases processed
        simp only [iff_true]
        intro v there
        rw [stream] at there
        cases there
        exact ⟨rfl, rfl⟩
  · change before.processStreams next = some after at last
    rw [Http2Conn.processStreams, if_neg counted] at last
    cases last
    simp only [counted, and_false, iff_false]
    exact fun released => held (released u now).fd

theorem releasesFinished_iff (targetPort : UInt16) (id : Nat) (events : List ConnEvent) :
    ReleasesFinished targetPort id events ↔ StartsOverEach targetPort id events := by
  constructor
  · intro releases between before after given
    exact (nextIteration_released given).mp (releases between before after given)
  · intro startsOver between before after given
    exact (nextIteration_released given).mpr (startsOver between before after given)

def finishingRound : Round := ⟨connectedRound.opening, [.took 100], .closed ⟨true, true, true⟩⟩

def finishingPast : List ConnEvent :=
  plainRequest.callbacks.map (.callback 1) ++
    [.process fun _ => finishingRound, .process fun _ => finishingRound]

def finishingRun : List ConnEvent :=
  finishingPast ++ [.process fun _ => finishingRound, .process fun _ => finishingRound]

theorem upstream_never_closed :
    (run Http2Conn.step (.init 443) finishingRun).map
      (fun c => (c.streams 1).map fun s => (s.responseComplete, s.upstreamFd, s.upstreamSsl)) =
        some (some (true, true, true)) ∧
    ¬ ReleasesFinished 443 1 finishingRun := by
  have first : (run Http2Conn.step (.init 443) finishingPast).map (·.responded 1) =
      some false := by decide
  have second : (run Http2Conn.step (.init 443)
      (finishingPast ++ [.process fun _ => finishingRound])).map (·.responded 1) = some true := by
    decide
  have last : (run Http2Conn.step (.init 443) finishingRun).map
      (fun c => (c.streams 1).map fun s => (s.responseComplete, s.upstreamFd, s.upstreamSsl)) =
        some (some (true, true, true)) := by decide
  refine ⟨last, ?_⟩
  intro releases
  obtain ⟨c, reached, pending⟩ := Option.map_eq_some_iff.mp first
  obtain ⟨d, reached', responded⟩ := Option.map_eq_some_iff.mp second
  obtain ⟨e, reached'', found⟩ := Option.map_eq_some_iff.mp last
  obtain ⟨s, stream, flags⟩ := Option.map_eq_some_iff.mp found
  have finished := (run_concat Http2Conn.step reached _).symm.trans reached'
  have whole : finishingRun = (finishingPast ++ [.process fun _ => finishingRound]) ++
      [.process fun _ => finishingRound] := by simp [finishingRun]
  rw [whole, run_concat Http2Conn.step reached'] at reached''
  have given : NextIteration 443 1 finishingRun [] d e :=
    ⟨finishingPast, _, _, c, d, List.prefix_refl _, by simp, reached, pending, finished, responded,
      rfl, reached''⟩
  have closed := (releases [] d e given s stream).fd
  simp [closed] at flags

end ProxyServer.Http2
