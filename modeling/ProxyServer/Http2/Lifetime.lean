import ProxyServer.Http2.Effects

namespace ProxyServer.Http2
open Lib

namespace Http2Conn

variable {c d : Http2Conn}

structure Ready (c : Http2Conn) : Prop where
  tabled : c.Tabled
  streams : ∀ i s, c.streams i = some s → s.Ready

theorem Ready.before (ready : c.Ready) (id : Nat) : (c.before id).Ready := by
  rw [Http2Conn.before]
  cases found : c.streams id with
  | none => exact ready_fresh
  | some s => exact ready.streams id s found

theorem Ready.receive (ready : c.Ready) (id : Nat) (callback : Callback) :
    (c.receive id callback).Ready := by
  refine ⟨ready.tabled.receive id callback, ?_⟩
  intro i s found
  rw [receive_streams] at found
  by_cases same : i = id
  · subst same
    rw [Function.update_self] at found
    cases found
    exact (ready.before i).receive callback
  · rw [Function.update_of_ne same] at found
    exact ready.streams i s found

theorem Ready.processOne (ready : c.Ready) {rounds : Nat → Round} {i : Nat}
    (ran : processOne rounds c i = some d) : d.Ready := by
  refine ⟨ready.tabled.processOne ran, ?_⟩
  rcases processOne_cases ran with rfl | ⟨s, result, found, -, processed, rfl⟩
  · exact ready.streams
  · intro j u there
    change Function.update c.streams i _ j = some u at there
    by_cases same : j = i
    · subst same
      rw [Function.update_self] at there
      cases there
      exact (ready.streams j s found).process processed
    · rw [Function.update_of_ne same] at there
      exact ready.streams j u there

theorem place_within (sources : List Source) (found : c.streams i = some s) :
    within (c.place sources) i s.slots = c.place sources := by
  funext slot
  cases slot with
  | stream j part =>
      by_cases same : j = i
      · subst same
        simp [within, place, found]
      · simp [within, same]
  | _ => rfl

theorem getStream_moves (c : Http2Conn) (sources : List Source) (id : Nat) :
    Moves (c.place sources) (c.getStreamTouches id)
      (within (Function.update (c.place sources) .streams (mark (max c.maxStreams (id + 1)))) id
        (c.before id).slots) := by
  have conn : c.place sources .conn = some 0 := rfl
  have table : Moves (c.place sources)
      (if c.maxStreams < id + 1 then
        drop .streams (mark c.maxStreams) ++ [.acquire (.streams, id + 1)]
      else [])
      (Function.update (c.place sources) .streams (mark (max c.maxStreams (id + 1)))) := by
    split
    · rename_i beyond
      rw [max_eq_right beyond.le]
      exact moves_replace (c.place sources) .streams (id + 1)
    · rename_i inside
      rw [max_eq_left (Nat.le_of_not_lt inside)]
      exact (moves_nil _).to (Function.update_eq_self ..).symm
  have used : Function.update (c.place sources) .streams (mark (max c.maxStreams (id + 1)))
      .streams = some (max c.maxStreams (id + 1)) := by
    rw [Function.update_self, mark, if_neg (by omega)]
  rw [getStreamTouches, List.cons_append]
  refine (moves_use conn).cons (table.append ((moves_use used).cons ?_))
  generalize mark (max c.maxStreams (id + 1)) = size
  cases found : c.streams id with
  | none =>
      have free : Function.update (c.place sources) .streams size (.stream id .self) = none := by
        rw [Function.update_of_ne (by simp), place, found, Option.bind_none]
      refine (moves_acquire free 0).to ?_
      funext slot
      cases slot with
      | stream j part =>
          by_cases same : j = id
          · subst same
            rw [before, found]
            cases part <;> simp [within, place, found] <;> rfl
          · simp [within, same]
      | _ => simp [within]
  | some s =>
      refine (moves_nil _).to ?_
      funext slot
      cases slot with
      | stream j part =>
          by_cases same : j = id
          · subst same
            simp [within, place, before, found]
          · simp [within, same]
      | _ => rfl

theorem receive_moves (c : Http2Conn) (sources : List Source) (id : Nat) (callback : Callback) :
    Moves (c.place sources) (c.getStreamTouches id ++ callback.touches id (c.before id))
      ((c.receive id callback).place sources) := by
  refine ((c.getStream_moves sources id).append (Callback.moves _ id _ callback)).to ?_
  funext slot
  cases slot with
  | stream j part =>
      by_cases same : j = id
      · subst same
        simp [within, place, receive_streams]
      · simp [within, place, same, receive_streams]
  | streams => simp [within, place, receive_maxStreams]
  | _ => simp [within, place]

theorem keeping_place (c : Http2Conn) (sources new : List Source) (n : Nat) (part : RoundPart) :
    keeping (c.place sources) new (.round n part) =
      present ((sources ++ new).any (·.keeps n part)) := by
  rw [keeping, place, List.any_append]
  cases sources.any (·.keeps n part) <;> cases new.any (·.keeps n part) <;> rfl

theorem processOne_moves (ready : c.Ready) {sources : List Source} {rounds : Nat → Round}
    {i n : Nat} (inside : i < c.maxStreams) (ran : c.processOne rounds i = some d)
    (unused : ∀ part, c.place sources (.round n part) = none) :
    Moves (c.place sources) (c.effects rounds n i).touches
      (d.place (sources ++ (c.effects rounds n i).sources)) := by
  have table : c.place sources .streams = some c.maxStreams := by
    rw [place, mark, if_neg (by omega)]
  have conn : c.place sources .conn = some 0 := rfl
  have start : Moves (c.place sources) [.use (.conn, 0), .use (.streams, c.maxStreams)]
      (c.place sources) := (moves_use conn).cons (moves_use table)
  rw [processOne] at ran
  rw [effects]
  cases found : c.streams i with
  | none =>
      rw [found] at ran
      cases ran
      exact start.to (by rw [List.append_nil])
  | some s =>
      have self : c.place sources (.stream i .self) = some 0 := by
        rw [place, found, Option.bind_some, Http2Stream.slots]
      have looked := start.append (moves_use self)
      rw [found] at ran
      dsimp only at ran ⊢
      cases active : s.requestComplete && !s.responseComplete with
      | false =>
          rw [active] at ran
          cases ran
          exact looked.to (by rw [if_neg Bool.false_ne_true, List.append_nil])
      | true =>
          rw [active] at ran
          obtain ⟨result, processed, same⟩ := Option.bind_eq_some_iff.mp ran
          obtain rfl := Option.some.inj same
          have round := effects_moves (c.place sources) i n (ready.streams i s found) active
            processed unused
          rw [place_within sources found] at round
          refine (looked.append round).to ?_
          funext slot
          cases slot with
          | stream j part =>
              by_cases same : j = i
              · subst same
                simp [within, place]
              · simp [within, keeping, place, same]
          | round k part => exact c.keeping_place sources _ k part
          | _ => rfl

end Http2Conn

namespace Tracked

variable {t u : Tracked}

structure Sound (t : Tracked) : Prop where
  ready : t.conn.Ready
  below : ∀ source ∈ t.sources, ∀ n part, source.keeps n part = true → n < t.rounds
  moves : Moves (fun _ => none) t.trace (t.conn.place t.sources)

theorem init_sound (targetPort : UInt16) : (init targetPort).Sound := by
  refine ⟨⟨⟨?_, ?_⟩, ?_⟩, ?_, ?_⟩
  · simp [init, Http2Conn.init]
  · simp [init, Http2Conn.init]
  · simp [init, Http2Conn.init]
  · simp [init]
  · refine ((moves_acquire rfl 0).cons (moves_acquire rfl 0)).to ?_
    funext slot
    cases slot <;> simp [Http2Conn.place, init, Http2Conn.init, mark, present]

theorem Sound.callback (sound : t.Sound) (id : Nat) (callback : Callback)
    (taken : t.step (.callback id callback) = some u) : u.Sound := by
  cases taken
  refine ⟨sound.ready.receive id callback, sound.below, ?_⟩
  rw [List.append_assoc]
  exact sound.moves.append (t.conn.receive_moves t.sources id callback)

theorem number_of_keeps {source : Source} {n : Nat} {part : RoundPart}
    (keeps : source.keeps n part = true) : n = source.number := by
  cases source <;> simp_all [Source.keeps, Source.onHeap, Source.payload, Source.number]

theorem number_of_readEffects {s : Http2Stream} {i n : Nat} {read : UpstreamRead} {source : Source}
    (member : source ∈ (s.readEffects i n read).sources) : source.number = n := by
  unfold Http2Stream.readEffects at member
  cases read with
  | data piece calls =>
      simp only [Http2Stream.dataEffects] at member
      split_ifs at member <;> grind [Source.number]
  | again => simp at member
  | closed calls =>
      simp only [Http2Stream.closedEffects] at member
      split_ifs at member <;> grind [Source.number]
  | failed => simp at member

theorem number_of_effects {c : Http2Conn} {rounds : Nat → Round} {n i : Nat} {source : Source}
    (member : source ∈ (c.effects rounds n i).sources) : source.number = n := by
  rw [Http2Conn.effects] at member
  split at member
  · simp at member
  · dsimp only at member
    split at member
    · unfold Http2Stream.effects at member
      split at member
      · simp at member
      · simp at member
      · simp at member
      · exact number_of_readEffects member
      · simp at member
    · simp at member

theorem Sound.processOne (sound : t.Sound) {rounds : Nat → Round} {i : Nat}
    (inside : i < t.conn.maxStreams) (ran : t.processOne rounds i = some u) : u.Sound := by
  obtain ⟨conn, taken, rfl⟩ := Option.map_eq_some_iff.mp ran
  have unused : ∀ part, t.conn.place t.sources (.round t.rounds part) = none := by
    intro part
    have none_ : t.sources.any (·.keeps t.rounds part) = false := by
      rw [List.any_eq_false]
      exact fun source member keeps => Nat.lt_irrefl _ (sound.below source member _ part keeps)
    rw [Http2Conn.place, none_]
    rfl
  refine ⟨sound.ready.processOne taken, ?_, ?_⟩
  · intro source member n part keeps
    rcases List.mem_append.mp member with old | new
    · exact Nat.lt_succ_of_lt (sound.below source old n part keeps)
    · rw [number_of_keeps keeps, number_of_effects new]
      exact Nat.lt_succ_self _
  · exact sound.moves.append (Http2Conn.processOne_moves sound.ready inside taken unused)

theorem processOne_conn (t : Tracked) {rounds : Nat → Round} (i : Nat) (u : Tracked)
    (ran : t.processOne rounds i = some u) : t.conn.processOne rounds i = some u.conn := by
  obtain ⟨conn, taken, rfl⟩ := Option.map_eq_some_iff.mp ran
  exact taken

theorem foldlM_sound {rounds : Nat → Round} {indices : List Nat} (sound : t.Sound)
    (inside : ∀ i ∈ indices, i < t.conn.maxStreams)
    (ran : indices.foldlM (Tracked.processOne rounds) t = some u) : u.Sound := by
  induction indices generalizing t with
  | nil =>
      cases ran
      exact sound
  | cons i indices ih =>
      obtain ⟨b, first, rest⟩ := Option.bind_eq_some_iff.mp ran
      have same : b.conn.maxStreams = t.conn.maxStreams := by
        rcases Http2Conn.processOne_cases (processOne_conn t i b first) with same | turned
        · rw [same]
        · obtain ⟨s, result, -, -, -, same⟩ := turned
          rw [same]
      exact ih (sound.processOne (inside i (by simp)) first)
        (fun j member => same ▸ inside j (by simp [member])) rest

theorem step_sound (t : Tracked) (event : ConnEvent) (u : Tracked) (sound : t.Sound)
    (taken : t.step event = some u) : u.Sound := by
  cases event with
  | callback id callback => exact sound.callback id callback taken
  | process rounds =>
      rw [step] at taken
      split at taken
      · exact foldlM_sound sound (fun i member => List.mem_range.mp member) taken
      · cases taken
        exact sound

theorem step_conn (t : Tracked) (event : ConnEvent) (u : Tracked) (taken : t.step event = some u) :
    t.conn.step event = some u.conn := by
  cases event with
  | callback id callback =>
      cases taken
      rfl
  | process rounds =>
      rw [step] at taken
      rw [Http2Conn.step, Http2Conn.processStreams]
      split at taken
      · rw [if_pos ‹_›, foldlM_eq_run]
        rw [foldlM_eq_run] at taken
        exact run_map _ conn (fun s a t => processOne_conn s a t) taken
      · cases taken
        rw [if_neg ‹_›]

end Tracked

theorem Http2Stream.free_moves (m : Slot → Option Nat) (i : Nat) (s : Http2Stream) :
    Moves (within m i s.slots) (s.free i) (within m i fun _ => none) := by
  have self : within m i s.slots (.stream i .self) = some 0 := within_stream .self
  have freed := (moves_use self).cons (moves_drops_stream m i s (by decide :
    [StreamPart.upstreamSsl, .upstreamFd, .upstreamRequest, .upstreamResponseBuf, .method, .path,
      .authority, .requestBuf, .body].Nodup))
  refine (freed.append (moves_release (within_stream .self))).to ?_
  rw [update_within_stream]
  refine congrArg _ ?_
  funext part
  cases part <;> simp

def Http2Conn.freedBelow (c : Http2Conn) (sources : List Source) (k : Nat) : Slot → Option Nat
  | .session => none
  | .stream i part => if i < k then none else c.place sources (.stream i part)
  | .conn => c.place sources .conn
  | .streams => c.place sources .streams
  | .round n part => c.place sources (.round n part)

def leaked (sources : List Source) : Slot → Option Nat
  | .round n part => present (sources.any (·.keeps n part))
  | _ => none

theorem Http2Conn.place_freed (c : Http2Conn) (sources : List Source) (k : Nat) :
    within (c.freedBelow sources k) k (fun _ => none) = c.freedBelow sources (k + 1) := by
  funext slot
  cases slot with
  | stream j part =>
      simp only [within, freedBelow]
      grind
  | _ => rfl

theorem Http2Conn.cleanup_moves {c : Http2Conn} (ready : c.Ready) (sources : List Source) :
    Moves (c.place sources) c.cleanup (leaked sources) := by
  have conn : c.place sources .conn = some 0 := rfl
  have session : c.place sources .session = some 0 := rfl
  have start : Moves (c.place sources)
      [.use (.conn, 0), .use (.session, 0), .release (.session, 0)] (c.freedBelow sources 0) := by
    refine ((moves_use conn).cons ((moves_use session).cons (moves_release session))).to ?_
    funext slot
    cases slot <;> simp [freedBelow]
  have streams : ∀ k ≤ c.maxStreams, Moves (c.freedBelow sources 0)
      ((List.range k).flatMap fun i =>
        .use (.streams, c.maxStreams) :: (c.streams i).elim [] (·.free i))
      (c.freedBelow sources k) := by
    intro k
    induction k with
    | zero => exact fun _ => moves_nil _
    | succ k ih =>
        intro inside
        have table : c.freedBelow sources k .streams = some c.maxStreams := by
          rw [freedBelow, place, mark, if_neg (by omega)]
        rw [List.range_succ, List.flatMap_append, List.flatMap_singleton, ← c.place_freed]
        refine (ih (Nat.le_of_succ_le inside)).append ((moves_use table).cons ?_)
        cases found : c.streams k with
        | none =>
            refine (moves_nil _).to ?_
            funext slot
            cases slot with
            | stream j part =>
                by_cases same : j = k
                · subst same
                  simp [within, freedBelow, place, found]
                · simp [within, same]
            | _ => rfl
        | some s =>
            have there : within (c.freedBelow sources k) k s.slots = c.freedBelow sources k := by
              funext slot
              cases slot with
              | stream j part =>
                  by_cases same : j = k
                  · subst same
                    simp [within, freedBelow, place, found]
                  · simp [within, same]
              | _ => rfl
            have freed := s.free_moves (c.freedBelow sources k) k
            rwa [there] at freed
  have table : Moves (c.freedBelow sources c.maxStreams) (drop .streams (mark c.maxStreams)) _ :=
    moves_drop (c.freedBelow sources c.maxStreams) .streams
  have last : Function.update (c.freedBelow sources c.maxStreams) .streams none .conn = some 0 := by
    rw [Function.update_of_ne (by simp)]
    rfl
  refine (((start.append (streams _ (Nat.le_refl _))).append table).append
    (moves_release last)).to ?_
  funext slot
  cases slot with
  | stream j part =>
      simp only [Function.update_apply, freedBelow, leaked, place]
      cases found : c.streams j with
      | none => simp
      | some s => simp [ready.tabled.within j s found]
  | _ => simp [freedBelow, leaked, place]

theorem fills_leaked (sources : List Source) :
    Fills ((sources.filter (·.onHeap)).map (·.payload)).toFinset (leaked sources) := by
  intro slot size
  simp only [List.mem_toFinset, List.mem_map, List.mem_filter]
  cases slot with
  | round n part =>
      simp only [leaked, present, List.any_eq_true, Source.keeps, Bool.and_eq_true,
        decide_eq_true_eq, Option.ite_none_right_eq_some, Option.some.injEq]
      constructor
      · rintro ⟨source, ⟨member, heap⟩, same⟩
        refine ⟨⟨source, member, heap, congrArg Prod.fst same⟩, ?_⟩
        cases source <;> exact congrArg Prod.snd same
      · rintro ⟨⟨source, member, heap, same⟩, rfl⟩
        refine ⟨source, ⟨member, heap⟩, Prod.ext same ?_⟩
        cases source <;> rfl
  | _ =>
      simp only [leaked, reduceCtorEq, iff_false]
      rintro ⟨source, -, same⟩
      cases source <;> simp [Source.payload] at same

/-- Nothing that the code uses itself has been given back, nothing is given back twice, and what is
live are the parts of the streams; after the cleanup it is the payloads on the heap, all of them.
What `data_read_callback` follows is `Source.read`. -/
theorem connection_owns {targetPort : UInt16} {events : List ConnEvent} {t : Tracked}
    (reached : run Tracked.step (.init targetPort) events = some t) :
    run Http2Conn.step (.init targetPort) events = some t.conn ∧
      (∃ live, Owns ∅ t.trace live ∧ Fills live (t.conn.place t.sources)) ∧
      Owns ∅ (t.trace ++ t.conn.cleanup)
        ((t.sources.filter (·.onHeap)).map (·.payload)).toFinset := by
  obtain ⟨ready, -, moves⟩ := run_invariant _ Tracked.step_sound (Tracked.init_sound targetPort)
    reached
  refine ⟨run_map _ Tracked.conn Tracked.step_conn reached, fills_empty.owns moves, ?_⟩
  obtain ⟨left, owns, fills⟩ :=
    fills_empty.owns (moves.append (Http2Conn.cleanup_moves ready t.sources))
  rwa [fills.unique (fills_leaked t.sources)] at owns

def answeringRound : Round where
  opening := connectedRound.opening
  writes := [.took 100]
  read := .data ⟨ascii "HTTP/1.1 200 OK\r\n\r\nA", by decide, by decide⟩ ⟨true, true, true⟩

def answeringRun : List ConnEvent :=
  plainRequest.callbacks.map (.callback 1) ++
    List.replicate 3 (.process fun _ => answeringRound)

theorem answeringRun_sources : (run Tracked.step (.init 443) answeringRun).map (·.sources) =
    some [.tail 5 1 276, .piece 5] := by decide

theorem connection_owns_answering : ∃ t, run Tracked.step (.init 443) answeringRun = some t ∧
    Owns ∅ (t.trace ++ t.conn.cleanup) {(.round 5 .tail, 0), (.round 5 .payload, 0)} := by
  obtain ⟨t, reached, sources⟩ := Option.map_eq_some_iff.mp answeringRun_sources
  have owns := (connection_owns reached).2.2
  rw [sources] at owns
  exact ⟨t, reached, owns⟩

/-- When `data_read_callback` comes to what was submitted, all of it is still there only if it came
with the headers and the response buffer has not grown since. -/
theorem submitted_readable_iff {targetPort : UInt16} {events : List ConnEvent} {t : Tracked}
    (reached : run Tracked.step (.init targetPort) events = some t) {source : Source}
    (member : source ∈ t.sources) :
    (∃ live, Owns ∅ (t.trace ++ source.read) live) ↔
      ∃ n i size s, source = .tail n i size ∧ t.conn.streams i = some s ∧
        s.slots .upstreamResponseBuf = some size := by
  obtain ⟨-, -, moves⟩ := run_invariant _ Tracked.step_sound (Tracked.init_sound targetPort)
    reached
  obtain ⟨live, owns, fills⟩ := fills_empty.owns moves
  have pointers : source.read = (source.payload :: source.data.toList).map .use := rfl
  simp only [owns.append_iff, pointers, fills.uses_iff, List.forall_mem_cons, Option.mem_toList]
  have kept (heap : source.onHeap = true) {n : Nat} {part : RoundPart}
      (same : source.payload.1 = .round n part) :
      t.conn.place t.sources (.round n part) = some 0 := by
    have any : t.sources.any (·.keeps n part) = true :=
      List.any_eq_true.mpr ⟨source, member, by simp [Source.keeps, heap, same]⟩
    rw [Http2Conn.place, any]
    rfl
  -- Nothing keeps the buffer of a round or its stack.
  have gone (n : Nat) {part : RoundPart} (fleeting : part = .readBuf ∨ part = .frame) :
      t.conn.place t.sources (.round n part) = none := by
    have none_ : t.sources.any (·.keeps n part) = false := by
      rw [List.any_eq_false]
      intro other _ keeps
      rcases fleeting with rfl | rfl <;> cases other <;>
        simp [Source.keeps, Source.onHeap, Source.payload] at keeps
    rw [Http2Conn.place, none_]
    rfl
  cases source with
  | tail n i size =>
      have payload : t.conn.place t.sources (.round n .tail) = some 0 := kept rfl rfl
      constructor
      · rintro ⟨-, data⟩
        obtain ⟨s, found, sized⟩ := Option.bind_eq_some_iff.mp (data _ rfl)
        exact ⟨n, i, size, s, rfl, found, sized⟩
      · rintro ⟨_, _, _, s, same, found, sized⟩
        cases same
        refine ⟨payload, ?_⟩
        rintro _ ⟨⟩
        exact Option.bind_eq_some_iff.mpr ⟨s, found, sized⟩
  | piece n =>
      refine iff_of_false ?_ (by simp)
      rintro ⟨-, data⟩
      have there := data _ rfl
      rw [gone n (.inl rfl)] at there
      cases there
  | stack n data =>
      refine iff_of_false ?_ (by simp)
      rintro ⟨there, -⟩
      rw [Source.payload, gone n (.inr rfl)] at there
      cases there

theorem submitted_readable_iff_piece : ∃ t, run Tracked.step (.init 443) answeringRun = some t ∧
    ¬ ∃ live, Owns ∅ (t.trace ++ (Source.piece 5).read) live := by
  obtain ⟨t, reached, sources⟩ := Option.map_eq_some_iff.mp answeringRun_sources
  refine ⟨t, reached, ?_⟩
  rw [@submitted_readable_iff 443 _ t reached (.piece 5) (by simp [sources])]
  simp

end ProxyServer.Http2
