import ProxyServer.Http2.ActiveStreams
import ProxyServer.Http2.Memory
import Mathlib.Data.List.DropRight

namespace ProxyServer.Http2
open Lib.Block StreamRequest

structure StoredConn where
  streams : List (Option StoredStream)
  numStreams : Nat
  maxStreams : Nat
  activeStreamsCount : Nat

/-- What is in the memory that `realloc` adds. -/
structure Heap where
  bytes : Nat → UInt8
  pointers : Nat → Option StoredStream

inductive TableEvent where
  | getStream (streamId : Int)
  | callback (streamId : Int) (callback : Callback)
  | readUpstream (i : Nat) (bytes : Bytes) (calls : ReadCalls)

def TableEvent.InRange : TableEvent → Prop
  | .getStream streamId | .callback streamId _ => 0 ≤ streamId ∧ streamId ≤ 2 ^ 31 - 2
  | .readUpstream _ _ _ => True

namespace StoredConn

def init : StoredConn where
  streams := []
  numStreams := 0
  maxStreams := 0
  activeStreamsCount := 0

def growTable (heap : Heap) (c : StoredConn) (streamId : Int) : Checked StoredConn := do
  if c.maxStreams ≤ toSize streamId then
    let oldMax := c.maxStreams
    let newMax := toSize (toInt (streamId + 1))
    let streams ← fill none (realloc heap.pointers c.streams newMax) oldMax (newMax - oldMax)
    return { c with streams, maxStreams := newMax }
  else
    return c

/-- There is no stream with a negative number. -/
def getStream (heap : Heap) (c : StoredConn) (streamId : Int) :
    Checked (StoredConn × Option StoredStream) := do
  if streamId < 0 then
    return (c, none)
  let c ← c.growTable heap streamId
  match ← entryAt c.streams (toSize streamId) with
  | some stream => return (c, some stream)
  | none =>
      let stream := StoredStream.fresh streamId
      let streams ← setEntry c.streams (toSize streamId) (some stream)
      return ({ c with streams, numStreams := c.numStreams + 1 }, some stream)

def store (c : StoredConn) (i : Nat) (stream : StoredStream) : Checked StoredConn := do
  let streams ← setEntry c.streams i (some stream)
  return { c with streams }

def receive (heap : Heap) (c : StoredConn) (streamId : Int) (callback : Callback) :
    Checked StoredConn := do
  match ← c.getStream heap streamId with
  | (c, none) => return c
  | (c, some stream) =>
      let stream ← stream.receive heap.bytes callback
      let c ← c.store (toSize streamId) stream
      return { c with
        activeStreamsCount := c.activeStreamsCount + if callback.completes then 1 else 0 }

def readUpstream (heap : Heap) (c : StoredConn) (i : Nat) (bytes : Bytes) (calls : ReadCalls) :
    Checked StoredConn := do
  if i < c.maxStreams then
    match ← entryAt c.streams i with
    | none => return c
    | some stream =>
        let stream ← stream.readData heap.bytes bytes calls
        c.store i stream
  else
    return c

def step (c : StoredConn) : Heap × TableEvent → Checked StoredConn
  | (heap, .getStream streamId) => Prod.fst <$> c.getStream heap streamId
  | (heap, .callback streamId callback) => c.receive heap streamId callback
  | (heap, .readUpstream i bytes calls) => c.readUpstream heap i bytes calls

def run (calls : List (Heap × TableEvent)) : Checked StoredConn := calls.foldlM step init

def lookup (c : StoredConn) (i : Nat) : Option StoredStream := (c.streams[i]?).join

structure Intact (c : StoredConn) : Prop where
  allocated : c.maxStreams = c.streams.length
  ids : ∀ i stream, c.lookup i = some stream → stream.streamId = i
  counted : c.numStreams = c.streams.countP Option.isSome

def entry (c : StoredConn) (n : Nat) : StoredStream := (c.lookup n).getD (.fresh n)

def grown (c : StoredConn) (n : Nat) : List (Option StoredStream) :=
  c.streams ++ List.replicate (n + 1 - c.maxStreams) none

def opened (c : StoredConn) (n : Nat) : StoredConn :=
  { c with
    streams := (c.grown n).set n (some (c.entry n))
    maxStreams := max c.maxStreams (n + 1)
    numStreams := c.numStreams + if (c.lookup n).isSome then 0 else 1 }

def written (c : StoredConn) (i : Nat) (stream : StoredStream) : StoredConn :=
  { c with streams := c.streams.set i (some stream) }

/-! ## One call -/

variable {c : StoredConn} {heap : Heap} {n i : Nat} {stream : StoredStream}

theorem length_grown (intact : c.Intact) (n : Nat) :
    (c.grown n).length = max c.maxStreams (n + 1) := by
  rw [grown, List.length_append, List.length_replicate, ← intact.allocated]
  omega

theorem lt_grown (intact : c.Intact) (n : Nat) : n < (c.grown n).length := by
  rw [length_grown intact]
  omega

theorem toSize_small (small : n < 2 ^ 31) : toSize n = n := by
  unfold toSize
  omega

theorem growTable_eq (intact : c.Intact) (small : n < 2 ^ 31 - 1) :
    c.growTable heap n = .ok { c with
      streams := c.grown n
      maxStreams := max c.maxStreams (n + 1) } := by
  have newMax : toSize (toInt ((n : Int) + 1)) = n + 1 := by
    have next : ((n : Int) + 1) = (n + 1 : Nat) := rfl
    rw [next, toInt_length.mpr (by omega), toSize_small (by omega)]
  unfold growTable grown
  rw [toSize_small (by omega), newMax, intact.allocated]
  split_ifs with beyond
  · dsimp only
    rw [fill_realloc heap.pointers none (by omega), max_eq_right (by omega)]
    rfl
  · rw [show n + 1 - c.streams.length = 0 by omega, max_eq_left (by omega), ← intact.allocated,
      List.replicate_zero, List.append_nil]
    rfl

theorem getElem?_grown (i : Nat) : ((c.grown n)[i]?).join = c.lookup i := by
  unfold lookup grown
  rw [List.getElem?_append]
  split_ifs with inside
  · rfl
  · rw [List.getElem?_replicate, List.getElem?_eq_none (not_lt.mp inside)]
    split <;> rfl

theorem getStream_eq (intact : c.Intact) (small : n < 2 ^ 31 - 1) :
    c.getStream heap n = .ok (c.opened n, some (c.entry n)) := by
  have inside := lt_grown intact n
  have there := @getElem?_grown c n n
  have present := List.getElem?_eq_getElem inside
  unfold getStream
  rw [if_neg (by omega), growTable_eq intact small, ok_bind, toSize_small (by omega)]
  simp only [entryAt, setEntry, if_pos inside]
  unfold opened entry
  rw [present, Option.join_some] at there
  rw [present, ← there]
  cases found : (c.grown n)[n] with
  | none => rfl
  | some stream =>
      -- The pointer that is there already is what is put there.
      have same : (c.grown n).set n (some stream) = c.grown n := by
        rw [← found, List.set_getElem_self]
      simp only [Option.getD_some, Option.isSome_some, if_true, Nat.add_zero, same]
      rfl

theorem length_opened (intact : c.Intact) (n : Nat) :
    (c.opened n).streams.length = (c.opened n).maxStreams :=
  List.length_set.trans (length_grown intact n)

theorem lookup_set {streams : List (Option StoredStream)} {d : StoredConn}
    (inside : n < streams.length) (set : d.streams = streams.set n (some stream)) :
    d.lookup = Function.update (fun i => (streams[i]?).join) n (some stream) := by
  funext i
  rw [lookup, set]
  by_cases same : i = n
  · subst same
    simp [inside]
  · rw [Function.update_of_ne same, List.getElem?_set_ne (Ne.symm same)]

theorem lookup_opened (intact : c.Intact) (n : Nat) :
    (c.opened n).lookup = Function.update c.lookup n (some (c.entry n)) := by
  rw [lookup_set (lt_grown intact n) rfl, funext getElem?_grown]

theorem Intact.opened (intact : c.Intact) (n : Nat) : (c.opened n).Intact where
  allocated := (length_opened intact n).symm
  ids i stream found := by
    rw [lookup_opened intact] at found
    by_cases same : i = n
    · subst same
      rw [Function.update_self] at found
      obtain rfl := Option.some.inj found
      cases there : c.lookup i with
      | none => simp [entry, there, StoredStream.fresh]
      | some stream => simpa [entry, there] using intact.ids i stream there
    · rw [Function.update_of_ne same] at found
      exact intact.ids i stream found
  counted := by
    have same : (c.grown n).countP Option.isSome = c.numStreams := by
      rw [grown, List.countP_append, List.countP_replicate, intact.counted]
      simp
    rw [StoredConn.opened, countP_set_some (lt_grown intact n), same, getElem?_grown]

theorem getElem?_lookup : c.streams[i]? = some (some stream) ↔ c.lookup i = some stream :=
  Option.join_eq_some_iff.symm

theorem lookup_inside (intact : c.Intact) (found : c.lookup i = some stream) :
    i < c.maxStreams := by
  obtain ⟨inside, -⟩ := List.getElem?_eq_some_iff.mp (getElem?_lookup.mpr found)
  exact intact.allocated ▸ inside

theorem entryAt_lookup (intact : c.Intact) (inside : i < c.maxStreams) :
    entryAt c.streams i = .ok (c.lookup i) := by
  rw [intact.allocated] at inside
  rw [entryAt, lookup, List.getElem?_eq_getElem inside]
  rfl

theorem store_eq (found : c.lookup i = some stream) (after : StoredStream) :
    c.store i after = .ok (c.written i after) := by
  obtain ⟨inside, -⟩ := List.getElem?_eq_some_iff.mp (getElem?_lookup.mpr found)
  rw [store, setEntry, if_pos inside]
  rfl

theorem lookup_written (found : c.lookup i = some stream) (after : StoredStream) :
    (c.written i after).lookup = Function.update c.lookup i (some after) := by
  obtain ⟨inside, -⟩ := List.getElem?_eq_some_iff.mp (getElem?_lookup.mpr found)
  exact lookup_set inside rfl

theorem Intact.written (intact : c.Intact) (found : c.lookup i = some stream)
    {after : StoredStream} (same : after.streamId = stream.streamId) :
    (c.written i after).Intact where
  allocated := intact.allocated.trans List.length_set.symm
  ids j other there := by
    rw [lookup_written found] at there
    by_cases here : j = i
    · subst here
      rw [Function.update_self] at there
      obtain rfl := Option.some.inj there
      exact same.trans (intact.ids j stream found)
    · rw [Function.update_of_ne here] at there
      exact intact.ids j other there
  counted := by
    obtain ⟨inside, -⟩ := List.getElem?_eq_some_iff.mp (getElem?_lookup.mpr found)
    have present : ((c.streams[i]?).join).isSome = true := by
      rw [getElem?_lookup.mpr found]
      rfl
    rw [StoredConn.written, countP_set_some inside, if_pos present]
    exact intact.counted

end StoredConn

/-! ## A run -/

/-- What an event is to the streams without their memory. -/
def Http2Conn.follow (c : Http2Conn) : TableEvent → Http2Conn
  | .getStream streamId => (c.getStream streamId.toNat).1
  | .callback streamId callback => c.receive streamId.toNat callback
  | .readUpstream i bytes calls =>
      match c.streams i with
      | none => c
      | some s => { c with
          streams := Function.update c.streams i (some (s.readData bytes calls).stream) }

theorem Http2Conn.getStream_fields (c : Http2Conn) (id : Nat) :
    (c.getStream id).1 = { c with
      streams := Function.update c.streams id (some (c.before id))
      maxStreams := max c.maxStreams (id + 1)
      numStreams := c.numStreams + if (c.streams id).isSome then 0 else 1 } := by
  unfold getStream before
  cases found : c.streams id with
  | none => simp [found]
  | some s =>
      have same : Function.update c.streams id (some s) = c.streams := by
        rw [← found, Function.update_eq_self]
      simp [found, same]

theorem Http2Conn.receive_fields (c : Http2Conn) (id : Nat) (callback : Callback) :
    c.receive id callback = { (c.getStream id).1 with
      streams := Function.update c.streams id (some ((c.before id).receive callback))
      activeStreamsCount := c.activeStreamsCount + if callback.completes then 1 else 0 } := by
  unfold receive getStream before
  cases found : c.streams id <;> simp [found]

namespace StoredConn

structure Represents (c : StoredConn) (d : Http2Conn) : Prop where
  maxStreams : c.maxStreams = d.maxStreams
  numStreams : c.numStreams = d.numStreams
  activeStreamsCount : c.activeStreamsCount = d.activeStreamsCount
  streams : ∀ i, Option.Rel StoredStream.Represents (c.lookup i) (d.streams i)

variable {c : StoredConn} {d : Http2Conn} {heap : Heap} {n i : Nat} {stream : StoredStream}

theorem rel_update {f : Nat → Option StoredStream} {g : Nat → Option Http2Stream}
    (rel : ∀ i, Option.Rel StoredStream.Represents (f i) (g i)) {s : Http2Stream}
    (one : stream.Represents s) (n i : Nat) :
    Option.Rel StoredStream.Represents (Function.update f n (some stream) i)
      (Function.update g n (some s) i) := by
  by_cases same : i = n
  · subst same
    rw [Function.update_self, Function.update_self]
    exact .some one
  · rw [Function.update_of_ne same, Function.update_of_ne same]
    exact rel i

theorem Represents.isSome (represents : c.Represents d) (i : Nat) :
    (c.lookup i).isSome = (d.streams i).isSome := by
  have rel := represents.streams i
  generalize c.lookup i = stored at rel ⊢
  generalize d.streams i = s at rel ⊢
  cases rel <;> rfl

theorem Represents.found (represents : c.Represents d) (found : c.lookup i = some stream) :
    ∃ s, d.streams i = some s ∧ stream.Represents s := by
  have rel := represents.streams i
  rw [found] at rel
  generalize d.streams i = s at rel ⊢
  cases rel with
  | some one => exact ⟨_, rfl, one⟩

theorem Represents.absent (represents : c.Represents d) (absent : c.lookup i = none) :
    d.streams i = none := by
  have rel := represents.isSome i
  rw [absent] at rel
  exact Option.isSome_eq_false_iff.mp rel.symm |> Option.isNone_iff_eq_none.mp

theorem Represents.entry (represents : c.Represents d) (n : Nat) :
    (c.entry n).Represents (d.before n) := by
  unfold StoredConn.entry Http2Conn.before
  cases stored : c.lookup n with
  | none =>
      rw [represents.absent stored]
      exact StoredStream.fresh_represents _
  | some stream =>
      obtain ⟨s, there, one⟩ := represents.found stored
      rw [there]
      exact one

theorem Represents.opened (represents : c.Represents d) (intact : c.Intact) (n : Nat) :
    (c.opened n).Represents (d.getStream n).1 := by
  rw [Http2Conn.getStream_fields]
  refine ⟨?_, ?_, represents.activeStreamsCount, ?_⟩
  · exact congrArg (max · (n + 1)) represents.maxStreams
  · change c.numStreams + _ = d.numStreams + _
    rw [represents.numStreams, represents.isSome]
  · rw [lookup_opened intact]
    exact rel_update represents.streams (represents.entry n) n

theorem receive_spec (intact : c.Intact) (represents : c.Represents d) (small : n < 2 ^ 31 - 1)
    (callback : Callback) :
    ∃ e, c.receive heap n callback = .ok e ∧ e.Intact ∧ e.Represents (d.receive n callback) := by
  obtain ⟨after, received, same, one⟩ :
      (c.entry n).Becomes ((c.entry n).receive heap.bytes callback)
        ((d.before n).receive callback) := (represents.entry n).receive callback
  have opened := intact.opened n
  have found : (c.opened n).lookup n = some (c.entry n) := by
    rw [lookup_opened intact, Function.update_self]
  refine ⟨{ (c.opened n).written n after with
    activeStreamsCount := c.activeStreamsCount + if callback.completes then 1 else 0 }, ?_, ?_, ?_⟩
  · rw [receive, getStream_eq intact small, ok_bind]
    simp only [received, ok_bind, toSize_small (show n < 2 ^ 31 by omega), store_eq found]
    rfl
  · exact ⟨(opened.written found same).allocated, (opened.written found same).ids,
      (opened.written found same).counted⟩
  · have table := represents.opened intact n
    have kept : ((c.opened n).written n after).lookup =
        Function.update c.lookup n (some after) := by
      rw [lookup_written found, lookup_opened intact, Function.update_idem]
    rw [Http2Conn.receive_fields]
    refine ⟨table.maxStreams, table.numStreams, ?_, ?_⟩
    · exact congrArg (· + _) represents.activeStreamsCount
    · exact fun i => kept ▸ rel_update represents.streams one n i

theorem receive_found (intact : c.Intact) (small : n < 2 ^ 31 - 1) (found : c.lookup n = some stream)
    {callback : Callback} {after : StoredStream}
    (received : stream.receive heap.bytes callback = .ok after) :
    ∃ d, c.receive heap n callback = .ok d ∧ d.lookup n = some after := by
  have isEntry : c.entry n = stream := by rw [entry, found, Option.getD_some]
  have opened : (c.opened n).lookup n = some stream := by
    rw [lookup_opened intact, Function.update_self, isEntry]
  refine ⟨{ (c.opened n).written n after with
    activeStreamsCount := c.activeStreamsCount + if callback.completes then 1 else 0 }, ?_, ?_⟩
  · rw [receive, getStream_eq intact small, isEntry, ok_bind]
    simp only [received, ok_bind, toSize_small (show n < 2 ^ 31 by omega), store_eq opened]
    rfl
  · exact (congrFun (lookup_written opened after) n).trans (Function.update_self ..)

theorem readUpstream_found (intact : c.Intact) (found : c.lookup i = some stream) {bytes : Bytes}
    {calls : ReadCalls} {after : StoredStream}
    (read : stream.readData heap.bytes bytes calls = .ok after) :
    ∃ d, c.readUpstream heap i bytes calls = .ok d ∧ d.lookup i = some after := by
  refine ⟨c.written i after, ?_, ?_⟩
  · rw [readUpstream, if_pos (lookup_inside intact found),
      entryAt_lookup intact (lookup_inside intact found), found, ok_bind]
    simp only [read, ok_bind, store_eq found]
  · rw [lookup_written found, Function.update_self]

theorem readUpstream_spec (intact : c.Intact) (represents : c.Represents d) (i : Nat)
    (bytes : Bytes) (calls : ReadCalls) :
    ∃ e, c.readUpstream heap i bytes calls = .ok e ∧ e.Intact ∧
      e.Represents (d.follow (.readUpstream i bytes calls)) := by
  unfold readUpstream Http2Conn.follow
  cases found : c.lookup i with
  | none =>
      refine ⟨c, ?_, intact, by simpa only [represents.absent found] using represents⟩
      split_ifs with inside
      · rw [entryAt_lookup intact inside, found]
        rfl
      · rfl
  | some stream =>
      obtain ⟨s, there, one⟩ := represents.found found
      obtain ⟨after, read, same, represented⟩ :
          stream.Becomes (stream.readData heap.bytes bytes calls) (s.readData bytes calls).stream :=
        one.readData bytes calls
      refine ⟨c.written i after, ?_, intact.written found same, ?_⟩
      · rw [if_pos (lookup_inside intact found), entryAt_lookup intact (lookup_inside intact found),
          found, ok_bind]
        simp only [read, ok_bind, store_eq found]
      · simp only [there]
        refine ⟨represents.maxStreams, represents.numStreams, represents.activeStreamsCount, ?_⟩
        intro j
        rw [lookup_written found]
        exact rel_update represents.streams represented i j

theorem step_spec (intact : c.Intact) (represents : c.Represents d) {call : Heap × TableEvent}
    (inRange : call.2.InRange) :
    ∃ e, c.step call = .ok e ∧ e.Intact ∧ e.Represents (d.follow call.2) := by
  obtain ⟨heap, event⟩ := call
  cases event with
  | getStream streamId =>
      obtain ⟨n, rfl⟩ := Int.eq_ofNat_of_zero_le inRange.1
      have small : n < 2 ^ 31 - 1 := by
        have := inRange.2
        omega
      refine ⟨c.opened n, ?_, intact.opened n, represents.opened intact n⟩
      rw [step, getStream_eq intact small]
      rfl
  | callback streamId callback =>
      obtain ⟨n, rfl⟩ := Int.eq_ofNat_of_zero_le inRange.1
      have small : n < 2 ^ 31 - 1 := by
        have := inRange.2
        omega
      exact receive_spec intact represents small callback
  | readUpstream i bytes calls => exact readUpstream_spec intact represents i bytes calls

theorem init_intact : init.Intact where
  allocated := rfl
  ids i stream found := by simp [lookup, init] at found
  counted := rfl

theorem init_represents (port : UInt16) : init.Represents (.init port) where
  maxStreams := rfl
  numStreams := rfl
  activeStreamsCount := rfl
  streams i := by
    have empty : init.lookup i = none := by simp [lookup, init]
    rw [empty]
    exact .none

theorem run_spec (port : UInt16) {calls : List (Heap × TableEvent)}
    (inRange : ∀ call ∈ calls, call.2.InRange) :
    ∃ c, run calls = .ok c ∧ c.Intact ∧
      c.Represents ((calls.map (·.2)).foldl Http2Conn.follow (.init port)) := by
  induction calls using List.reverseRecOn with
  | nil => exact ⟨init, rfl, init_intact, init_represents port⟩
  | append_singleton calls call ih =>
      obtain ⟨c, reached, intact, represents⟩ := ih fun call member =>
        inRange call (List.mem_append_left _ member)
      obtain ⟨e, taken, intact', represents'⟩ :=
        step_spec intact represents (inRange call (by simp))
      refine ⟨e, ?_, intact', ?_⟩
      · unfold run at reached
        rw [run, List.foldlM_append, reached, ok_bind, List.foldlM_cons, taken]
        rfl
      · rw [List.map_append, List.foldl_append]
        exact represents'

end StoredConn

/-! ## What the buffers hold -/

def Callback.line : Callback → Bytes
  | .header name value => if isPseudo name then [] else headerLine (name, value)
  | .beginHeaders | .frameRecv _ | .dataChunk _ _ => []

def sinceBegin (callbacks : List Callback) : List Callback :=
  callbacks.rtakeWhile (· ≠ .beginHeaders)

def callbacksFor (i : Nat) (events : List TableEvent) : List Callback :=
  events.filterMap fun
    | .callback streamId callback => if streamId = i then some callback else none
    | .getStream _ | .readUpstream _ _ _ => none

theorem receive_appends (r : StreamRequest) {callback : Callback}
    (other : callback ≠ .beginHeaders) :
    (r.receive callback).requestBuf = r.requestBuf ++ callback.line ∧
      (r.receive callback).body = r.body ++ callback.chunk := by
  cases callback with
  | beginHeaders => exact absurd rfl other
  | header name value =>
      refine ⟨?_, ?_⟩
      · rw [receive, onHeader_requestBuf, Callback.line]
        split_ifs
        · rw [List.append_nil]
        · rfl
      · exact (r.onHeader_frame name value).2.1.trans (List.append_nil _).symm
  | frameRecv frame => exact ⟨(List.append_nil _).symm, (List.append_nil _).symm⟩
  | dataChunk endStream data => exact ⟨(List.append_nil _).symm, rfl⟩

theorem foldl_sinceBegin (callbacks : List Callback) :
    (callbacks.foldl receive .fresh).requestBuf = (sinceBegin callbacks).flatMap Callback.line ∧
      (callbacks.foldl receive .fresh).body = (sinceBegin callbacks).flatMap Callback.chunk := by
  induction callbacks using List.reverseRecOn with
  | nil => exact ⟨rfl, rfl⟩
  | append_singleton callbacks callback ih =>
      obtain ⟨requestBuf, body⟩ := ih
      unfold sinceBegin at *
      rw [List.foldl_append, List.foldl_cons, List.foldl_nil]
      by_cases begins : callback = .beginHeaders
      · subst begins
        rw [List.rtakeWhile_concat_neg _ _ _ (by simp)]
        exact ⟨rfl, rfl⟩
      · obtain ⟨line, chunk⟩ := receive_appends (callbacks.foldl receive .fresh) begins
        rw [List.rtakeWhile_concat_pos _ _ _ (by simpa using begins), line, chunk, requestBuf, body,
          List.flatMap_append, List.flatMap_append, List.flatMap_singleton, List.flatMap_singleton]
        exact ⟨rfl, rfl⟩

def TableEvent.Names (i : Nat) : TableEvent → Prop
  | .getStream streamId | .callback streamId _ => streamId = i
  | .readUpstream _ _ _ => False

theorem TableEvent.Names.small {event : TableEvent} {i : Nat} (named : event.Names i)
    (inRange : event.InRange) : i < 2 ^ 31 - 1 := by
  cases event with
  | getStream streamId =>
      have atMost := inRange.2
      rw [show streamId = i from named] at atMost
      omega
  | callback streamId callback =>
      have atMost := inRange.2
      rw [show streamId = i from named] at atMost
      omega
  | readUpstream i bytes calls => exact named.elim

theorem follow_isSome (c : Http2Conn) {event : TableEvent} (inRange : event.InRange) (i : Nat) :
    ((c.follow event).streams i).isSome ↔ (c.streams i).isSome ∨ event.Names i := by
  have updated (n : Nat) (s : Http2Stream) : (Function.update c.streams n (some s) i).isSome ↔
      (c.streams i).isSome ∨ (n : Int) = i := by
    by_cases same : i = n
    · simp [same]
    · rw [Function.update_of_ne same]
      refine (or_iff_left fun named => same ?_).symm
      exact (Int.ofNat_inj.mp named).symm
  cases event with
  | getStream streamId =>
      obtain ⟨n, rfl⟩ := Int.eq_ofNat_of_zero_le inRange.1
      rw [Http2Conn.follow, Http2Conn.getStream_fields]
      exact updated n _
  | callback streamId callback =>
      obtain ⟨n, rfl⟩ := Int.eq_ofNat_of_zero_le inRange.1
      rw [Http2Conn.follow, Http2Conn.receive_fields]
      exact updated n _
  | readUpstream i' bytes calls =>
      rw [TableEvent.Names, or_false, Http2Conn.follow]
      cases found : c.streams i' with
      | none => rfl
      | some s =>
          by_cases same : i = i'
          · simp [same, found]
          · simp [Function.update_of_ne same]

theorem foldl_follow_isSome (port : UInt16) {events : List TableEvent}
    (inRange : ∀ event ∈ events, event.InRange) (i : Nat) :
    ((events.foldl Http2Conn.follow (.init port)).streams i).isSome ↔
      ∃ event ∈ events, event.Names i := by
  induction events using List.reverseRecOn with
  | nil => simp [Http2Conn.init]
  | append_singleton events event ih =>
      rw [List.foldl_append, List.foldl_cons, List.foldl_nil,
        follow_isSome _ (inRange event (by simp)),
        ih fun event member => inRange event (List.mem_append_left _ member)]
      simp [or_and_right, exists_or]

theorem follow_request (c : Http2Conn) {event : TableEvent} (inRange : event.InRange) (i : Nat) :
    (c.follow event).request i = (callbacksFor i [event]).foldl receive (c.request i) := by
  cases event with
  | getStream streamId =>
      rw [Http2Conn.follow, Http2Conn.getStream_fields]
      by_cases same : i = streamId.toNat
      · subst same
        simpa [Http2Conn.request, callbacksFor] using c.before_request streamId.toNat
      · simp [Http2Conn.request, callbacksFor, Function.update_of_ne same]
  | callback streamId callback =>
      obtain ⟨n, rfl⟩ := Int.eq_ofNat_of_zero_le inRange.1
      rw [Http2Conn.follow, Http2Conn.receive_request]
      by_cases same : n = i <;> simp [callbacksFor, same]
  | readUpstream i' bytes calls =>
      unfold Http2Conn.follow
      cases found : c.streams i' with
      | none => simp [callbacksFor, found]
      | some s =>
          by_cases same : i = i'
          · subst same
            simp [Http2Conn.request, callbacksFor, found, (s.readData_frame bytes calls).1]
          · simp [Http2Conn.request, callbacksFor, found, Function.update_of_ne same]

theorem foldl_follow_request (port : UInt16) {events : List TableEvent}
    (inRange : ∀ event ∈ events, event.InRange) (i : Nat) :
    (events.foldl Http2Conn.follow (.init port)).request i =
      (callbacksFor i events).foldl receive .fresh := by
  induction events using List.reverseRecOn with
  | nil => rfl
  | append_singleton events event ih =>
      have split : callbacksFor i (events ++ [event]) =
          callbacksFor i events ++ callbacksFor i [event] := List.filterMap_append
      rw [List.foldl_append, List.foldl_cons, List.foldl_nil,
        follow_request _ (inRange event (by simp)),
        ih fun event member => inRange event (List.mem_append_left _ member), split,
        List.foldl_append]

structure StoredStream.Appends (m d : StoredStream) (line chunk response : Bytes) : Prop where
  requestBuf : d.requestBuf.contents = m.requestBuf.contents ++ line
  body : d.body.contents = m.body.contents ++ chunk
  upstreamResponse : d.upstreamResponse.contents = m.upstreamResponse.contents ++ response
  sound : ∀ b ∈ d.buffers, b.Sound

structure StoredConn.Grows (c d : StoredConn) (n : Nat) : Prop where
  reaches : n < d.maxStreams
  kept : ∀ i stream, c.lookup i = some stream → d.lookup i = some stream
  null : ∀ i, c.maxStreams ≤ i → i < d.maxStreams → i ≠ n → d.streams[i]? = some none

namespace StoredStream.Represents

variable {m : StoredStream} {s : Http2Stream} {found : Nat → UInt8}

theorem receive_appends (represents : m.Represents s) {callback : Callback}
    (other : callback ≠ .beginHeaders) :
    ∃ d, m.receive found callback = .ok d ∧ m.Appends d callback.line callback.chunk [] := by
  obtain ⟨d, received, -, after⟩ : m.Becomes (m.receive found callback) (s.receive callback) :=
    represents.receive callback
  obtain ⟨line, chunk⟩ := Http2.receive_appends s.toStreamRequest other
  refine ⟨d, received, ?_, ?_, ?_, after.sound⟩
  · rw [after.requestBuf.contents, represents.requestBuf.contents]
    exact line
  · rw [after.body.contents, represents.body.contents]
    exact chunk
  · rw [after.upstreamResponse.contents, represents.upstreamResponse.contents, List.append_nil]
    rfl

theorem appendResponse_appends (represents : m.Represents s) (bytes : Bytes) :
    ∃ d, m.appendResponse found bytes = .ok d ∧ m.Appends d [] [] bytes := by
  obtain ⟨d, appended, -, after⟩ : m.Becomes (m.appendResponse found bytes) (s.append bytes) :=
    represents.appendResponse bytes
  refine ⟨d, appended, ?_, ?_, ?_, after.sound⟩
  · rw [after.requestBuf.contents, represents.requestBuf.contents, List.append_nil]
    rfl
  · rw [after.body.contents, represents.body.contents, List.append_nil]
    rfl
  · rw [after.upstreamResponse.contents, represents.upstreamResponse.contents]
    rfl

end StoredStream.Represents

theorem StoredConn.opened_grows {c : StoredConn} (intact : c.Intact) (n : Nat) :
    c.Grows (c.opened n) n where
  reaches := lt_max_of_lt_right n.lt_succ_self
  kept i stream found := by
    rw [lookup_opened intact]
    by_cases same : i = n
    · subst same
      rw [Function.update_self, entry, found]
      rfl
    · rw [Function.update_of_ne same, found]
  null i beyond inside other := by
    have new : i - c.streams.length < n + 1 - c.maxStreams := by
      have reached : i < max c.maxStreams (n + 1) := inside
      have allocated := intact.allocated
      omega
    unfold opened grown
    rw [List.getElem?_set_ne (Ne.symm other),
      List.getElem?_append_right (intact.allocated ▸ beyond), List.getElem?_replicate, if_pos new]

/-- The table and the buffers over a whole run, whatever `realloc` finds in the memory it adds. -/
theorem streamTable_intact (calls : List (Heap × TableEvent))
    (inRange : ∀ call ∈ calls, call.2.InRange) :
    ∃ c, StoredConn.run calls = .ok c ∧ c.Intact ∧
      (∀ i, (c.lookup i).isSome ↔ ∃ call ∈ calls, call.2.Names i) ∧
      (∀ heap streamId, 0 ≤ streamId → streamId ≤ 2 ^ 31 - 2 →
        ∃ d stream, c.getStream heap streamId = .ok (d, some stream) ∧ d.Intact ∧
          d.lookup streamId.toNat = some stream ∧ c.Grows d streamId.toNat) ∧
      ∀ i stream, c.lookup i = some stream →
        (∀ b ∈ stream.buffers, b.Sound) ∧
        stream.requestBuf.contents =
          (sinceBegin (callbacksFor i (calls.map (·.2)))).flatMap Callback.line ∧
        stream.body.contents =
          (sinceBegin (callbacksFor i (calls.map (·.2)))).flatMap Callback.chunk ∧
        (∀ heap callback, callback ≠ .beginHeaders → ∃ after d,
          stream.receive heap.bytes callback = .ok after ∧
          stream.Appends after callback.line callback.chunk [] ∧
          c.step (heap, .callback i callback) = .ok d ∧ d.lookup i = some after) ∧
        ∀ heap bytes readCalls, ∃ after d,
          stream.appendResponse heap.bytes bytes = .ok after ∧ stream.Appends after [] [] bytes ∧
          c.step (heap, .readUpstream i bytes readCalls) = .ok d ∧
          d.lookup i = some (after.completeHeaders readCalls) := by
  have eventsInRange : ∀ event ∈ calls.map (·.2), event.InRange := List.forall_mem_map.mpr inRange
  obtain ⟨c, reached, intact, represents⟩ := StoredConn.run_spec 0 inRange
  have present (i : Nat) : (c.lookup i).isSome ↔ ∃ call ∈ calls, call.2.Names i := by
    rw [represents.isSome, foldl_follow_isSome 0 eventsInRange]
    simp only [List.mem_map, exists_exists_and_eq_and]
  refine ⟨c, reached, intact, present, ?_, ?_⟩
  · intro heap streamId natural small
    obtain ⟨n, rfl⟩ := Int.eq_ofNat_of_zero_le natural
    refine ⟨c.opened n, c.entry n, StoredConn.getStream_eq intact (by omega), intact.opened n, ?_,
      StoredConn.opened_grows intact n⟩
    rw [StoredConn.lookup_opened intact]
    exact Function.update_self ..
  · intro i stream found
    obtain ⟨s, there, one⟩ := represents.found found
    have request : s.toStreamRequest = (callbacksFor i (calls.map (·.2))).foldl receive .fresh := by
      rw [← foldl_follow_request 0 eventsInRange, Http2Conn.request, there]
      rfl
    obtain ⟨line, chunk⟩ := foldl_sinceBegin (callbacksFor i (calls.map (·.2)))
    have small : i < 2 ^ 31 - 1 := by
      obtain ⟨call, member, named⟩ := (present i).mp (by rw [found, Option.isSome_some])
      exact named.small (inRange call member)
    refine ⟨one.sound, ?_, ?_, fun heap callback other => ?_, fun heap bytes readCalls => ?_⟩
    · rw [one.requestBuf.contents, request, line]
    · rw [one.body.contents, request, chunk]
    · obtain ⟨after, received, appends⟩ := one.receive_appends other
      obtain ⟨d, taken, there⟩ := StoredConn.receive_found intact small found received
      exact ⟨after, d, received, appends, taken, there⟩
    · obtain ⟨after, appended, appends⟩ := one.appendResponse_appends bytes
      have read : stream.readData heap.bytes bytes readCalls =
          .ok (after.completeHeaders readCalls) := by
        rw [StoredStream.readData, appended]
        rfl
      obtain ⟨d, taken, there⟩ := StoredConn.readUpstream_found intact found read
      exact ⟨after, d, appended, appends, taken, there⟩

def twoRequests : List (Heap × TableEvent) :=
  [.callback 1 .beginHeaders, .callback 1 (.header (ascii "a") (ascii "b")), .getStream 5,
    .callback 1 .beginHeaders, .callback 1 (.header (ascii "c") (ascii "d")),
    .callback 1 (.dataChunk false (ascii "he")), .callback 1 (.frameRecv ⟨.data, false, false, 2⟩),
    .callback 1 (.dataChunk true (ascii "y"))].map (⟨fun _ => 90, fun i => some (.fresh i)⟩, ·)

theorem streamTable_intact_two :
    ∃ c stream, StoredConn.run twoRequests = .ok c ∧ c.Intact ∧ c.lookup 1 = some stream ∧
      stream.requestBuf.contents = ascii "c: d\r\n" ∧ stream.body.contents = ascii "hey" := by
  obtain ⟨c, reached, intact, present, -, holds⟩ :=
    streamTable_intact twoRequests (by simp [twoRequests, TableEvent.InRange])
  have named : ∃ call ∈ twoRequests, call.2.Names 1 := by
    simp [twoRequests, TableEvent.Names]
  obtain ⟨stream, found⟩ := Option.isSome_iff_exists.mp ((present 1).mpr named)
  obtain ⟨-, line, chunk, -⟩ := holds 1 stream found
  exact ⟨c, stream, reached, intact, found, line.trans (by decide), chunk.trans (by decide)⟩

end ProxyServer.Http2
