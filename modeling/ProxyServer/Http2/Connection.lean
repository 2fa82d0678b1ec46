import ProxyServer.Http2.Request
import ProxyServer.Http2.Response

namespace ProxyServer.Http2
open Lib

/-- `streams` has `max_streams` entries; beyond them there is nothing. -/
structure Http2Conn where
  streams : Nat → Option Http2Stream
  numStreams : Nat
  maxStreams : Nat
  activeStreamsCount : Nat
  targetPort : UInt16

inductive ConnEvent where
  | callback (id : Nat) (callback : Callback)
  | process (rounds : Nat → Round)

namespace Http2Conn

def init (targetPort : UInt16) : Http2Conn where
  streams _ := none
  numStreams := 0
  maxStreams := 0
  activeStreamsCount := 0
  targetPort

def getStream (c : Http2Conn) (id : Nat) : Http2Conn × Http2Stream :=
  let c := { c with maxStreams := max c.maxStreams (id + 1) }
  match c.streams id with
  | some stream => (c, stream)
  | none =>
      ({ c with
          streams := Function.update c.streams id (some .fresh)
          numStreams := c.numStreams + 1 }, .fresh)

def receive (c : Http2Conn) (id : Nat) (callback : Callback) : Http2Conn :=
  let (c, stream) := c.getStream id
  { c with
    streams := Function.update c.streams id (some (stream.receive callback))
    activeStreamsCount := c.activeStreamsCount + if callback.completes then 1 else 0 }

def processOne (rounds : Nat → Round) (c : Http2Conn) (i : Nat) : Option Http2Conn :=
  match c.streams i with
  | none => some c
  | some stream =>
      if stream.requestComplete && !stream.responseComplete then do
        let result ← stream.process c.targetPort (rounds i)
        some { c with
          streams := Function.update c.streams i (some result.stream)
          activeStreamsCount :=
            if result.ret = 0 ∧ result.stream.responseComplete then
              toSize (c.activeStreamsCount - 1)
            else c.activeStreamsCount }
      else some c

def processStreams (c : Http2Conn) (rounds : Nat → Round) : Option Http2Conn :=
  if c.activeStreamsCount > 0 then (List.range c.maxStreams).foldlM (processOne rounds) c
  else some c

def step (c : Http2Conn) : ConnEvent → Option Http2Conn
  | .callback id callback => some (c.receive id callback)
  | .process rounds => c.processStreams rounds

def request (c : Http2Conn) (id : Nat) : StreamRequest :=
  ((c.streams id).map (·.toStreamRequest)).getD .fresh

structure Forwards (c : Http2Conn) (id : Nat) (s : Http2Stream) : Prop where
  active : 0 < c.activeStreamsCount
  inTable : id < c.maxStreams
  stream : c.streams id = some s
  builds : s.Builds

end Http2Conn

def callbacksOf (id : Nat) (events : List ConnEvent) : List Callback :=
  events.filterMap fun
    | .callback i callback => if i = id then some callback else none
    | .process _ => none

namespace Http2Request

def ChunksDelivered (r : Http2Request) (done : List Callback) : Prop :=
  ∀ rest, done ++ rest = r.callbacks → ∀ endStream data, .dataChunk endStream data ∉ rest

/-- After `done`, a chunk of the frame that ends the stream has been delivered and another has
not. -/
def InLastFrame (r : Http2Request) (done : List Callback) : Prop :=
  (∃ data, .dataChunk true data ∈ done) ∧
    ∃ rest data, done ++ rest = r.callbacks ∧ .dataChunk true data ∈ rest

def TrailersBegun (done : List Callback) : Prop := 1 < done.count .beginHeaders

end Http2Request

def ForwardsComplete (targetPort : UInt16) (id : Nat) (r : Http2Request)
    (events : List ConnEvent) : Prop :=
  ∀ past rounds, past ++ [.process rounds] <+: events →
    ∀ c, run Http2Conn.step (.init targetPort) past = some c → ∀ s, c.Forwards id s →
      r.ChunksDelivered (callbacksOf id past) ∧ s.method = r.method ∧ s.path = r.path ∧
        s.authority = r.authority ∧ s.body = r.body

/-- The loop never finds the stream connected, and its request not yet built, while the frame that
ends it is partly delivered or after its trailing block has begun. -/
def FindsNoneHalfway (targetPort : UInt16) (id : Nat) (r : Http2Request)
    (events : List ConnEvent) : Prop :=
  ∀ past rounds, past ++ [.process rounds] <+: events →
    ∀ c, run Http2Conn.step (.init targetPort) past = some c → ∀ s, c.Forwards id s →
      ¬ r.InLastFrame (callbacksOf id past) ∧ ¬ Http2Request.TrailersBegun (callbacksOf id past)

theorem Http2Stream.sendRequest_request {s : Http2Stream} {writes : List UpstreamWrite}
    {result : RoundResult} (ran : s.sendRequest writes = some result) :
    result.stream.toStreamRequest = s.toStreamRequest := by
  obtain ⟨request, -, sent⟩ := Option.bind_eq_some_iff.mp ran
  simp only at sent
  split_ifs at sent
  split at sent <;> (cases sent; rfl)

theorem Http2Stream.process_request {s : Http2Stream} {port : UInt16} {round : Round}
    {result : RoundResult} (ran : s.process port round = some result) :
    result.stream.toStreamRequest = s.toStreamRequest := by
  unfold process at ran
  split_ifs at ran
  · cases ran
    rfl
  · cases ran
    rfl
  · split at ran
    · cases ran
      rfl
    · cases ran
      rfl
    · exact sendRequest_request ran
    · cases ran
      cases round.read with
      | data piece calls => exact (s.readData_frame piece.bytes calls).1
      | again => rfl
      | closed calls =>
          rcases s.readClosed_stream calls with same | done
          · exact congrArg _ same
          · exact congrArg (·.toStreamRequest) done
      | failed => rfl
    · cases ran
      rfl

namespace Http2Conn

variable {c d : Http2Conn}

theorem receive_request (c : Http2Conn) (i id : Nat) (callback : Callback) :
    (c.receive i callback).request id =
      if i = id then (c.request id).receive callback else c.request id := by
  unfold receive getStream
  cases found : c.streams i with
  | none =>
      by_cases same : i = id
      · subst same
        simp [request, found, Http2Stream.receive, Http2Stream.fresh]
      · simp [request, found, same, Function.update_of_ne (Ne.symm same)]
  | some stream =>
      by_cases same : i = id
      · subst same
        simp [request, found, Http2Stream.receive]
      · simp [request, found, same, Function.update_of_ne (Ne.symm same)]

theorem processOne_request {rounds : Nat → Round} {i : Nat}
    (ran : processOne rounds c i = some d) (id : Nat) : d.request id = c.request id := by
  unfold processOne at ran
  split at ran
  · cases ran
    rfl
  · rename_i stream found
    split at ran
    · obtain ⟨result, processed, same⟩ := Option.bind_eq_some_iff.mp ran
      obtain rfl := Option.some.inj same
      by_cases same : id = i
      · subst same
        simp [request, found, Http2Stream.process_request processed]
      · simp [request, Function.update_of_ne same]
    · cases ran
      rfl

theorem processStreams_keeps {rounds : Nat → Round} (kept : Http2Conn → Prop)
    (keep : ∀ b i e, kept b → processOne rounds b i = some e → kept e) (start : kept c)
    (ran : c.processStreams rounds = some d) : kept d := by
  unfold processStreams at ran
  split at ran
  · rename_i active
    clear active
    generalize List.range c.maxStreams = indices at ran
    induction indices generalizing c with
    | nil =>
        cases ran
        exact start
    | cons i indices ih =>
        obtain ⟨b, first, rest⟩ := Option.bind_eq_some_iff.mp ran
        exact ih (keep c i b start first) rest
  · cases ran
    exact start

theorem step_request {event : ConnEvent} (taken : c.step event = some d) (id : Nat) :
    d.request id = (callbacksOf id [event]).foldl StreamRequest.receive (c.request id) := by
  cases event with
  | callback i callback =>
      cases taken
      rw [receive_request]
      by_cases same : i = id <;> simp [callbacksOf, same]
  | process rounds =>
      exact processStreams_keeps (fun d => d.request id = c.request id)
        (fun _ _ _ same ran => (processOne_request ran id).trans same) rfl taken

theorem run_request {port : UInt16} {events : List ConnEvent}
    (ran : run step (init port) events = some c) (id : Nat) :
    c.request id = (callbacksOf id events).foldl StreamRequest.receive .fresh := by
  induction events using List.reverseRecOn generalizing c with
  | nil =>
      cases ran
      rfl
  | append_singleton events event ih =>
      obtain ⟨b, before, -⟩ := Option.bind_eq_some_iff.mp ((run_append ..).symm.trans ran)
      have taken : b.step event = some c := (run_concat step before event).symm.trans ran
      have split : callbacksOf id (events ++ [event]) =
          callbacksOf id events ++ callbacksOf id [event] := List.filterMap_append
      rw [step_request taken, ih before, split, List.foldl_append]

end Http2Conn

def Callback.Before (c y : Callback) : Prop :=
  c.completes = true → y.field = none ∧
    ∀ endStream data, y = .dataChunk endStream data →
      endStream = true ∧ ∃ data, c = .dataChunk true data

theorem before_of_incomplete {callbacks : List Callback}
    (quiet : ∀ c ∈ callbacks, c.completes = false) : callbacks.Pairwise Callback.Before := by
  refine List.pairwise_of_forall_mem_list ?_
  intro c member y _ completes
  rw [quiet c member] at completes
  cases completes

theorem DataFrame.callbacks_before (frame : DataFrame) (endStream : Bool) :
    (frame.callbacks endStream).Pairwise Callback.Before := by
  rw [callbacks, List.pairwise_append]
  refine ⟨?_, List.pairwise_singleton _ _, ?_⟩
  · rw [chunkCallbacks, List.pairwise_map]
    refine List.pairwise_of_forall_mem_list ?_
    rintro a - b - completes
    refine ⟨rfl, ?_⟩
    rintro _ _ ⟨⟩
    have ends : endStream = true := completes
    exact ⟨ends, a, by rw [ends]⟩
  · intro c _ y last completes
    rw [List.mem_singleton] at last
    subst last
    exact ⟨rfl, by simp⟩

theorem framesCallbacks_before (endStream : Bool) (frames : List DataFrame) :
    (framesCallbacks endStream frames).Pairwise Callback.Before := by
  induction frames with
  | nil => exact List.Pairwise.nil
  | cons frame frames ih =>
      cases frames with
      | nil => exact frame.callbacks_before endStream
      | cons next frames =>
          change (frame.callbacks false ++ framesCallbacks endStream (next :: frames)).Pairwise _
          rw [List.pairwise_append]
          refine ⟨frame.callbacks_before false, ih, ?_⟩
          intro c here y _ completes
          have quiet := List.any_eq_false.mp (frame.callbacks_completes false) c here
          exact absurd completes quiet

theorem Http2Request.rest_before (r : Http2Request) : r.rest.Pairwise Callback.Before := by
  rw [rest, List.pairwise_append, List.pairwise_cons]
  have fields : ∀ c ∈ r.fields.map (fun f => Callback.header f.1 f.2), c.completes = false :=
    List.forall_mem_map.mpr fun _ _ => rfl
  refine ⟨before_of_incomplete fields, ⟨?_, framesCallbacks_before _ _⟩, ?_⟩
  · intro y later completes
    have long : (r.blockLength == 0) = false := beq_false_of_ne r.blockNonempty.ne'
    simp only [Callback.completes, Frame.endsRequest, long, Bool.false_or, Bool.true_and,
      Bool.and_eq_true, List.isEmpty_iff] at completes
    simp [completes.1, framesCallbacks] at later
  · intro c here y _ completes
    rw [fields c here] at completes
    cases completes

namespace Http2Request

variable {r : Http2Request} {done : List Callback}

theorem count_main (r : Http2Request) : r.mainCallbacks.count .beginHeaders = 1 := by
  rw [mainCallbacks_eq, List.count_cons_self, List.count_eq_zero_of_not_mem r.rest_noBegin]

theorem prefix_cases (isPrefix : done <+: r.callbacks) :
    done <+: r.mainCallbacks ∧ ¬ TrailersBegun done ∨
      ∃ fields block, r.trailers = some fields ∧ done = r.mainCallbacks ++ .beginHeaders :: block ∧
        block <+: fields.map (fun f => .header f.1 f.2) ++
          [.frameRecv ⟨.headers, true, true, r.blockLength⟩] := by
  obtain ⟨rest, whole⟩ := isPrefix
  have few {early : List Callback} (part : early <+: r.mainCallbacks) : ¬ TrailersBegun early := by
    have bound := part.sublist.count_le .beginHeaders
    rw [count_main] at bound
    exact Nat.not_lt.mpr bound
  rcases List.append_eq_append_iff.mp whole with ⟨more, main, -⟩ | ⟨block, rfl, trailing⟩
  · exact Or.inl ⟨⟨more, main.symm⟩, few ⟨more, main.symm⟩⟩
  · cases block with
    | nil =>
        rw [List.append_nil]
        exact Or.inl ⟨List.prefix_refl _, few (List.prefix_refl _)⟩
    | cons first block =>
        cases trailers : r.trailers with
        | none => simp [trailers] at trailing
        | some fields =>
            rw [trailers, Option.elim_some, blockCallbacks_eq, List.cons_append] at trailing
            obtain ⟨rfl, later⟩ := List.cons.inj trailing
            exact Or.inr ⟨fields, block, rfl, rfl, rest, later.symm⟩

theorem noticed_rest (isPrefix : done <+: r.mainCallbacks)
    (noticed : (done.foldl StreamRequest.receive .fresh).requestComplete = true) :
    r.trailers = none ∧ ∃ later remaining c, done = .beginHeaders :: later ∧
      later ++ remaining = r.rest ∧ c ∈ later ∧ c.completes = true ∧
      ∀ y ∈ remaining, c.Before y := by
  obtain ⟨remaining, whole⟩ := isPrefix
  rw [mainCallbacks_eq] at whole
  cases done with
  | nil => cases noticed
  | cons first later =>
      rw [List.cons_append, List.cons.injEq] at whole
      obtain ⟨rfl, rest⟩ := whole
      have noBegin : Callback.beginHeaders ∉ later :=
        fun inside => r.rest_noBegin (rest ▸ List.mem_append_left remaining inside)
      obtain ⟨-, -, -, -, complete⟩ := StreamRequest.foldl_receive .fresh noBegin
      have ended : later.any Callback.completes = true := complete.symm.trans noticed
      have untrailed : r.trailers.isNone = true := by
        rw [← r.rest_completes, ← rest, List.any_append, ended, Bool.true_or]
      obtain ⟨c, member, completes⟩ := List.any_eq_true.mp ended
      exact ⟨Option.isNone_iff_eq_none.mp untrailed, later, remaining, c, rfl, rest, member,
        completes, fun y inside =>
          (List.pairwise_append.mp (rest ▸ r.rest_before)).2.2 c member y inside⟩

theorem names_of_noticed (isPrefix : done <+: r.mainCallbacks)
    (noticed : (done.foldl StreamRequest.receive .fresh).requestComplete = true) :
    let t := done.foldl StreamRequest.receive .fresh
    t.method = r.method ∧ t.path = r.path ∧ t.authority = r.authority := by
  obtain ⟨-, later, remaining, c, rfl, rest, -, completes, after⟩ :=
    noticed_rest isPrefix noticed
  have noBegin : Callback.beginHeaders ∉ later :=
    fun inside => r.rest_noBegin (rest ▸ List.mem_append_left remaining inside)
  obtain ⟨names, -⟩ := StreamRequest.foldl_receive .fresh noBegin
  have fields : later.filterMap Callback.field = r.fields := by
    have none : remaining.filterMap Callback.field = [] :=
      List.filterMap_eq_nil_iff.mpr fun y inside => (after y inside completes).1
    rw [← r.rest_fields, ← rest, List.filterMap_append, none, List.append_nil]
  rw [fields] at names
  refine ⟨?_, ?_, ?_⟩
  · exact (names (ascii ":method") (by decide)).trans (Option.or_none ..)
  · exact (names (ascii ":path") (by decide)).trans (Option.or_none ..)
  · exact (names (ascii ":authority") (by decide)).trans (Option.or_none ..)

theorem complete_of_noticed (isPrefix : done <+: r.mainCallbacks)
    (noticed : (done.foldl StreamRequest.receive .fresh).requestComplete = true)
    (halfway : ¬ r.InLastFrame done) :
    let t := done.foldl StreamRequest.receive .fresh
    r.ChunksDelivered done ∧ t.method = r.method ∧ t.path = r.path ∧
      t.authority = r.authority ∧ t.body = r.body := by
  obtain ⟨method, path, authority⟩ := names_of_noticed isPrefix noticed
  obtain ⟨untrailed, later, remaining, c, rfl, rest, member, completes, after⟩ :=
    noticed_rest isPrefix noticed
  have noBegin : Callback.beginHeaders ∉ later :=
    fun inside => r.rest_noBegin (rest ▸ List.mem_append_left remaining inside)
  obtain ⟨-, -, -, body, -⟩ := StreamRequest.foldl_receive .fresh noBegin
  have all : r.callbacks = .beginHeaders :: (later ++ remaining) := by
    rw [callbacks, untrailed, Option.elim_none, List.append_nil, mainCallbacks_eq, rest]
  have noChunk : ∀ endStream data, .dataChunk endStream data ∉ remaining := by
    intro endStream data inside
    obtain ⟨rfl, earlier, rfl⟩ := (after _ inside completes).2 endStream data rfl
    exact halfway ⟨⟨earlier, List.mem_cons_of_mem _ member⟩, remaining, data, all.symm, inside⟩
  have chunks : later.flatMap Callback.chunk = r.body := by
    have none : remaining.flatMap Callback.chunk = [] := by
      rw [List.flatMap_eq_nil_iff]
      rintro (_ | _ | _ | ⟨endStream, data⟩) inside
      · rfl
      · rfl
      · rfl
      · exact absurd inside (noChunk endStream data)
    rw [← r.rest_body, ← rest, List.flatMap_append, none, List.append_nil]
  refine ⟨?_, method, path, authority, body.trans chunks⟩
  intro tail same endStream data inside
  rw [all, List.cons_append, List.cons_inj_right, List.append_cancel_left_eq] at same
  exact noChunk endStream data (same ▸ inside)

theorem method_of_begun (isPrefix : done <+: r.callbacks) (begun : TrailersBegun done) :
    (done.foldl StreamRequest.receive .fresh).method = none := by
  rcases prefix_cases isPrefix with ⟨-, alone⟩ | ⟨fields, block, trailers, rfl, part⟩
  · exact absurd begun alone
  · have noBegin : Callback.beginHeaders ∉ block := by
      intro inside
      have member := part.subset inside
      simp at member
    obtain ⟨names, -⟩ := StreamRequest.foldl_receive .fresh noBegin
    have regular : ∀ f ∈ block.filterMap Callback.field, StreamRequest.isPseudo f.1 = false := by
      intro f member
      obtain ⟨callback, inside, isField⟩ := List.mem_filterMap.mp member
      have origin := part.subset inside
      simp only [List.mem_append, List.mem_map, List.mem_singleton] at origin
      rcases origin with ⟨g, given, rfl⟩ | rfl
      · cases isField
        exact r.trailersRegular fields trailers g given
      · cases isField
    have absent : fieldValue (block.filterMap Callback.field) (ascii ":method") = none := by
      rw [fieldValue, Option.map_eq_none_iff, List.find?_eq_none]
      intro f member same
      have kind := regular f (List.mem_reverse.mp member)
      rw [of_decide_eq_true same] at kind
      exact absurd kind (by decide)
    have method := names (ascii ":method") (by decide)
    rw [absent] at method
    rw [List.foldl_append, List.foldl_cons]
    exact method

end Http2Request

theorem forwardsComplete_iff {targetPort : UInt16} {id : Nat} {r : Http2Request}
    {events : List ConnEvent} (issued : callbacksOf id events <+: r.callbacks) :
    ForwardsComplete targetPort id r events ↔ FindsNoneHalfway targetPort id r events := by
  constructor
  · intro forwards past rounds isPrefix c ran s building
    obtain ⟨delivered, method, -⟩ := forwards past rounds isPrefix c ran s building
    have before : past <+: events := (List.prefix_append _ _).trans isPrefix
    have part : callbacksOf id past <+: r.callbacks := (before.filterMap _).trans issued
    have holds := Http2Conn.run_request ran id
    rw [Http2Conn.request, building.stream] at holds
    refine ⟨?_, ?_⟩
    · intro halfway
      obtain ⟨-, rest, data, whole, inside⟩ := halfway
      exact delivered rest whole true data inside
    · intro begun
      have gone := Http2Request.method_of_begun part begun
      rw [← holds] at gone
      rw [Option.map_some, Option.getD_some, method] at gone
      exact r.hasMethod gone
  · intro finds past rounds isPrefix c ran s building
    obtain ⟨halfway, alone⟩ := finds past rounds isPrefix c ran s building
    have before : past <+: events := (List.prefix_append _ _).trans isPrefix
    have part : callbacksOf id past <+: r.callbacks := (before.filterMap _).trans issued
    have holds := Http2Conn.run_request ran id
    rw [Http2Conn.request, building.stream, Option.map_some, Option.getD_some] at holds
    rcases Http2Request.prefix_cases part with ⟨main, -⟩ | ⟨fields, block, -, trailing, -⟩
    · have complete := building.builds.requestComplete
      rw [holds] at complete ⊢
      exact Http2Request.complete_of_noticed main complete halfway
    · refine absurd ?_ alone
      rw [Http2Request.TrailersBegun, trailing, List.count_append, Http2Request.count_main,
        List.count_cons_self]
      omega

def splitRequest : Http2Request :=
  { plainRequest with frames := [⟨[ascii "A", ascii "B", ascii "C"], 0⟩] }

def connectedRound : Round :=
  ⟨⟨true, true, true, true, some (0x7f000001, []), .ok, true, false⟩, [], .again⟩

/-- A run of the loop after each of the first two chunks: the stream is connected in the one, its
request is built in the other. -/
def betweenChunks : List ConnEvent :=
  (splitRequest.callbacks.take 6).map (.callback 1) ++ .process (fun _ => connectedRound) ::
    ((splitRequest.callbacks.drop 6).take 1).map (.callback 1) ++
      [.process fun _ => connectedRound]

def oneDelivery : List ConnEvent :=
  splitRequest.callbacks.map (.callback 1) ++
    [.process fun _ => connectedRound, .process fun _ => connectedRound]

theorem forwardsComplete_iff_one :
    ForwardsComplete 443 1 splitRequest oneDelivery ↔
      FindsNoneHalfway 443 1 splitRequest oneDelivery :=
  forwardsComplete_iff (by decide)

theorem half_forwarded :
    (run Http2Conn.step (.init 443) betweenChunks).map
        (fun c => (c.streams 1).map (·.upstreamRequest)) =
      some (some (some (ascii "GET / HTTP/1.1\r\nHost: a\r\n\r\nAB"))) ∧
    ¬ ForwardsComplete 443 1 splitRequest betweenChunks := by
  refine ⟨by decide, ?_⟩
  intro forwards
  have found : (run Http2Conn.step (.init 443) (betweenChunks.take 8)).map
      (fun c => (c.streams 1).map fun s => decide s.Builds) = some (some true) := by
    decide
  have table : (run Http2Conn.step (.init 443) (betweenChunks.take 8)).map
      (fun c => (c.activeStreamsCount, c.maxStreams)) = some (2, 2) := by decide
  obtain ⟨c, ran, state⟩ := Option.map_eq_some_iff.mp found
  obtain ⟨s, stream, builds⟩ := Option.map_eq_some_iff.mp state
  simp only [ran, Option.map_some, Option.some.injEq, Prod.mk.injEq] at table
  obtain ⟨delivered, -⟩ := forwards (betweenChunks.take 8) (fun _ => connectedRound)
    (List.prefix_refl _) c ran s
    ⟨by omega, by omega, stream, of_decide_eq_true builds⟩
  exact delivered (splitRequest.callbacks.drop 7) (by decide) true (ascii "C")
    (by decide)

end ProxyServer.Http2
