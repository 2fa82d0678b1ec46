import ProxyServer.Http3.RetryToken
import ProxyServer.Lib.History
import ProxyServer.Lib.Ownership

namespace ProxyServer.Http3
open Lib Lib.Block

inductive Handle where
  | connIo (n : Nat)
  | conn (n : Nat)
  | http3 (n : Nat)
  | event
  deriving DecidableEq

/-- `struct conn_io` number `n`, with `quiche_conn` number `n`; its key is the `scid_len` bytes that
were copied to `cid`. -/
structure ConnIo where
  number : Nat
  key : Bytes
  http3 : Bool
  peerAddr : Bytes

/-- A datagram whose header can be read: `quiche_header_info` fills no more than the buffers. -/
structure Datagram where
  peerAddr : Bytes
  scid : Bytes
  dcid : Bytes
  token : Bytes
  peerAddr_le : peerAddr.length ≤ 128
  scid_le : scid.length ≤ 20
  dcid_le : dcid.length ≤ 20
  token_le : token.length ≤ 154

inductive H3Event where
  | headers (stream : Int)
  | data
  | finished
  | reset
  | priorityUpdate
  | goaway

structure Answers where
  /-- Which of the connections with the id `HASH_FIND` comes upon. -/
  choice : Nat
  versionIsSupported : Bool
  /-- Whether `quiche_negotiate_version` or `quiche_retry` has written a packet. -/
  written : Bool
  newCid : Bytes
  connNew : Bool
  connRecv : Bool
  isEstablished : Bool
  h3ConnNew : Bool
  events : List H3Event

inductive Sent where
  | versionNegotiation (peer : Bytes)
  | retry (peer newCid token : Bytes)
  | response (number : Nat) (stream : Int) (headers : List (Bytes × Bytes)) (body : Bytes)
  deriving DecidableEq

structure Worker where
  conns : List ConnIo
  next : Nat
  trace : List (Touch Handle)
  sent : List Sent
  running : Bool

def Worker.start : Worker := ⟨[], 0, [], [], true⟩

/-! ## Timeouts -/

def ConnIo.holds (c : ConnIo) : Finset Handle :=
  {.connIo c.number, .conn c.number} ∪ if c.http3 then {.http3 c.number} else ∅

def ConnIo.uses (c : ConnIo) : List (Touch Handle) :=
  [.use (.connIo c.number), .use (.conn c.number)]

def ConnIo.flushEgress (c : ConnIo) : List (Touch Handle) := c.uses

def ConnIo.free (c : ConnIo) : List (Touch Handle) :=
  [.use (.connIo c.number), .release (.conn c.number)] ++
    (if c.http3 then [.use (.connIo c.number), .release (.http3 c.number)] else []) ++
    [.release (.connIo c.number)]

def ConnIo.onTimeout (isClosed : Nat → Bool) (c : ConnIo) : List (Touch Handle) :=
  c.uses ++ c.flushEgress ++ c.uses ++ if isClosed c.number then c.free else c.uses

def Worker.onTimeouts (w : Worker) (isClosed : Nat → Bool) : Worker :=
  { w with
    conns := w.conns.filter fun c => !isClosed c.number
    trace := w.trace ++ w.conns.flatMap (·.onTimeout isClosed) }

/-! ## A datagram -/

def buffer (size : Nat) (bytes : Bytes) : Bytes := bytes ++ List.replicate (size - bytes.length) 0

/-- Connections may share a key: which of them is found depends on the order in the bucket. -/
def Worker.hashFind (w : Worker) (id : Bytes) (choice : Nat) : Option ConnIo :=
  let found := w.conns.filter (·.key = id)
  found[choice % found.length]?

def H3Event.process (c : ConnIo) : H3Event → List (Touch Handle) × List Sent
  | .headers stream =>
      ([.use .event, .use (.http3 c.number), .use (.conn c.number)],
        [.response c.number stream
          [(ascii ":status", ascii "200"), (ascii "server", ascii "quiche"),
            (ascii "content-length", ascii "14")] (ascii "HTTP/3 Echo!\x0d\n")])
  | .data => ([], [])
  | .finished => ([], [])
  | .reset => ([], [])
  | .priorityUpdate => ([], [])
  | .goaway => ([], [])

def ConnIo.poll (c : ConnIo) : List (Touch Handle) :=
  [.use (.connIo c.number), .use (.http3 c.number), .use (.conn c.number)]

def ConnIo.processEvents (c : ConnIo) (events : List H3Event) : List (Touch Handle) :=
  events.flatMap (fun event =>
    c.poll ++ [.acquire .event, .use .event] ++ (event.process c).1 ++ [.release .event]) ++ c.poll

def Worker.processH3 (w : Worker) (c : ConnIo) (a : Answers) : Worker :=
  let created := !c.http3 && a.h3ConnNew
  let creation := c.uses ++ if created then [.acquire (.http3 c.number)] else []
  let c := { c with http3 := c.http3 || a.h3ConnNew }
  { w with
    conns := w.conns.map fun d => if d.number = c.number then c else d
    trace := w.trace ++ creation ++ if c.http3 then c.processEvents a.events else []
    sent := w.sent ++ if c.http3 then a.events.flatMap fun event => (event.process c).2 else [] }

def Worker.deliver (w : Worker) (c : ConnIo) (a : Answers) : Worker :=
  let w := { w with trace := w.trace ++ c.uses }
  if !a.connRecv then w
  else
    let w := { w with trace := w.trace ++ c.uses }
    let w := if a.isEstablished then w.processH3 c a else w
    { w with trace := w.trace ++ c.flushEgress }

/-- `HASH_ADD` asks for no key that is new. -/
def Worker.add (w : Worker) (d : Datagram) : Worker × ConnIo :=
  let c : ConnIo := ⟨w.next, d.scid, false, d.peerAddr⟩
  ({ w with
      conns := w.conns ++ [c]
      next := w.next + 1
      trace := w.trace ++ [.acquire (.conn w.next), .acquire (.connIo w.next)] }, c)

def Worker.handle (w : Worker) (d : Datagram) (a : Answers) : Checked Worker := do
  match w.hashFind d.dcid a.choice with
  | some c => return w.deliver c a
  | none =>
      if !a.versionIsSupported then
        return { w with
          sent := w.sent ++ if a.written then [.versionNegotiation d.peerAddr] else [] }
      if d.token.length = 0 then
        let (token, tokenLen) ← mintToken (buffer 20 d.dcid) d.dcid.length
          (buffer 128 d.peerAddr) d.peerAddr.length (buffer 154 d.token)
        return { w with
          sent := w.sent ++
            if a.written then [.retry d.peerAddr a.newCid (token.take tokenLen)] else [] }
      let validated ← validateToken (buffer 154 d.token) d.token.length
        (buffer 128 d.peerAddr) d.peerAddr.length (buffer 20 []) 20
      if validated.odcid = none then
        return w
      if !a.connNew then
        return w
      let (w, c) := w.add d
      return w.deliver c a

/-! ## Iterations -/

inductive Poll where
  | failed
  | nothing
  | datagram (d : Datagram) (a : Answers)

structure Iteration where
  isClosed : Nat → Bool
  poll : Poll

/-- The worker has ended when `poll` has failed, and a fault ends it as well. -/
def Worker.iterate (w : Worker) (i : Iteration) : Option Worker :=
  if !w.running then none
  else
    let w := w.onTimeouts i.isClosed
    match i.poll with
    | .failed => some { w with running := false }
    | .nothing => some w
    | .datagram d a => (w.handle d a).toOption

/-! ## What one connection holds -/

variable {w : Worker} {c : ConnIo} {a : Answers} {d : Datagram}

theorem ConnIo.owns_uses (c : ConnIo) : Owns c.holds c.uses c.holds := by
  simp [Owns, run, Touch.step, uses, holds]

theorem ConnIo.owns_free (c : ConnIo) : Owns c.holds c.free ∅ := by
  cases set : c.http3 <;>
    simp [Owns, run, Touch.step, free, holds, set, Finset.erase_insert_of_ne]

theorem ConnIo.owns_poll (set : c.http3) : Owns c.holds c.poll c.holds := by
  simp [Owns, run, Touch.step, poll, holds, set]

theorem ConnIo.owns_event (set : c.http3) (event : H3Event) :
    Owns c.holds ([.acquire .event, .use .event] ++ ((event.process c).1 ++ [.release .event]))
      c.holds := by
  cases event <;> simp [Owns, run, Touch.step, H3Event.process, holds, set]

theorem ConnIo.owns_processEvents (set : c.http3) (events : List H3Event) :
    Owns c.holds (c.processEvents events) c.holds := by
  refine Owns.append (Owns.loop fun event => ?_) (c.owns_poll set)
  rw [List.append_assoc, List.append_assoc]
  exact (c.owns_poll set).append (c.owns_event set event)

theorem ConnIo.owns_onTimeout (isClosed : Nat → Bool) (c : ConnIo) :
    Owns c.holds (c.onTimeout isClosed) (if isClosed c.number then ∅ else c.holds) := by
  refine ((c.owns_uses.append c.owns_uses).append c.owns_uses).append ?_
  split
  · exact c.owns_free
  · exact c.owns_uses

theorem number_of_holds {h : Handle} (holds : h ∈ c.holds) :
    h = .connIo c.number ∨ h = .conn c.number ∨ h = .http3 c.number := by
  simp only [ConnIo.holds, Finset.mem_union, Finset.mem_insert, Finset.mem_singleton] at holds
  split at holds
  · simpa [or_assoc] using holds
  · exact (by simpa using holds : h = .connIo c.number ∨ h = .conn c.number).imp_right .inl

theorem event_notMem_holds (c : ConnIo) : Handle.event ∉ c.holds := by
  intro holds
  rcases number_of_holds holds with same | same | same <;> cases same

theorem disjoint_holds {e : ConnIo} (other : c.number ≠ e.number) :
    Disjoint c.holds e.holds := by
  rw [Finset.disjoint_left]
  intro h mine yours
  rcases number_of_holds mine with rfl | rfl | rfl <;>
    rcases number_of_holds yours with same | same | same <;>
    simp_all

/-! ## What is done with one connection -/

def ConnIo.Becomes (c c' : ConnIo) : Prop :=
  c'.number = c.number ∧ c'.key = c.key ∧ c'.peerAddr = c.peerAddr ∧ (c.http3 → c'.http3)

def Sent.IsResponse : Sent → Prop
  | .response _ _ _ _ => True
  | _ => False

def Worker.Serves (w : Worker) (c : ConnIo) (u : Worker) : Prop :=
  ∃ c' touches responses, c.Becomes c' ∧ Owns c.holds touches c'.holds ∧
    (∀ h, .acquire h ∈ touches → h = .http3 c.number ∨ h = .event) ∧
    (∀ s ∈ responses, s.IsResponse) ∧
    u = { w with
      conns := w.conns.map fun e => if e.number = c.number then c' else e
      trace := w.trace ++ touches
      sent := w.sent ++ responses }

theorem acquire_processEvents {h : Handle} {events : List H3Event}
    (acquired : .acquire h ∈ c.processEvents events) : h = .event := by
  simp only [ConnIo.processEvents, List.mem_append, List.mem_flatMap] at acquired
  rcases acquired with ⟨event, -, inside⟩ | inside
  · cases event <;> simpa [ConnIo.poll, H3Event.process] using inside
  · simp [ConnIo.poll] at inside

theorem owns_creation (c : ConnIo) (h3ConnNew : Bool) :
    Owns c.holds
      (c.uses ++ if !c.http3 && h3ConnNew then [.acquire (.http3 c.number)] else [])
      { c with http3 := c.http3 || h3ConnNew }.holds := by
  refine c.owns_uses.append ?_
  cases set : c.http3 <;> cases h3ConnNew <;>
    simp [Owns, run, Touch.step, ConnIo.holds, set]
  ext h
  simp only [Finset.mem_insert, Finset.mem_singleton]
  grind

theorem processH3_serves (w : Worker) (c : ConnIo) (a : Answers) :
    w.Serves c (w.processH3 c a) := by
  let c' : ConnIo := { c with http3 := c.http3 || a.h3ConnNew }
  refine ⟨c', _, _, ⟨rfl, rfl, rfl, by simp_all [c']⟩, ?_, ?_, ?_,
    by rw [Worker.processH3, List.append_assoc]⟩
  · refine (owns_creation c a.h3ConnNew).append ?_
    split
    · rename_i set
      exact c'.owns_processEvents set a.events
    · exact owns_nil _
  · intro h acquired
    rcases List.mem_append.mp acquired with created | processed
    · refine .inl ?_
      rcases List.mem_append.mp created with used | made
      · simp [ConnIo.uses] at used
      · split at made <;> simp_all
    · split at processed
      · exact .inr (acquire_processEvents processed)
      · simp at processed
  · intro s answered
    split at answered
    · obtain ⟨event, -, inside⟩ := List.mem_flatMap.mp answered
      cases event <;> simp_all [H3Event.process, Sent.IsResponse]
    · simp at answered

theorem Worker.Serves.after {u : Worker} (serves : w.Serves c u) :
    w.Serves c { u with trace := u.trace ++ c.uses } := by
  obtain ⟨c', touches, responses, becomes, owns, fresh, answers, rfl⟩ := serves
  have again : c'.uses = c.uses := by rw [ConnIo.uses, ConnIo.uses, becomes.1]
  refine ⟨c', touches ++ c.uses, responses, becomes, again ▸ owns.append c'.owns_uses, ?_, answers,
    by simp only [List.append_assoc]⟩
  intro h acquired
  rcases List.mem_append.mp acquired with earlier | used
  · exact fresh h earlier
  · simp [ConnIo.uses] at used

theorem Worker.Serves.before {u : Worker}
    (serves : { w with trace := w.trace ++ c.uses }.Serves c u) : w.Serves c u := by
  obtain ⟨c', touches, responses, becomes, owns, fresh, answers, rfl⟩ := serves
  refine ⟨c', c.uses ++ touches, responses, becomes, c.owns_uses.append owns, ?_, answers,
    by simp only [List.append_assoc]⟩
  intro h acquired
  rcases List.mem_append.mp acquired with used | later
  · simp [ConnIo.uses] at used
  · exact fresh h later

theorem exists_place {conns : List ConnIo} (unique : (conns.map ConnIo.number).Nodup)
    (member : c ∈ conns) :
    ∃ front back, conns = front ++ c :: back ∧ (∀ e ∈ front ++ back, e.number ≠ c.number) ∧
      ∀ c', conns.map (fun e => if e.number = c.number then c' else e) = front ++ c' :: back := by
  obtain ⟨front, back, rfl⟩ := List.append_of_mem member
  have apart : ∀ e ∈ front ++ back, e.number ≠ c.number := by
    rw [List.map_append, List.map_cons, List.nodup_middle, List.nodup_cons,
      ← List.map_append] at unique
    exact fun e inside same => unique.1 (same ▸ List.mem_map_of_mem inside)
  refine ⟨front, back, rfl, apart, fun c' => ?_⟩
  have others : ∀ part : List ConnIo, (∀ e ∈ part, e.number ≠ c.number) →
      part.map (fun e => if e.number = c.number then c' else e) = part := by
    intro part other
    conv_rhs => rw [← List.map_id part]
    exact List.map_congr_left fun e inside => if_neg (other e inside)
  rw [List.map_append, List.map_cons, if_pos rfl, others front, others back]
  · exact fun e inside => apart e (List.mem_append_right _ inside)
  · exact fun e inside => apart e (List.mem_append_left _ inside)

theorem serves_self (unique : (w.conns.map ConnIo.number).Nodup) (member : c ∈ w.conns) :
    w.Serves c w := by
  obtain ⟨front, back, isConns, -, replaced⟩ := exists_place unique member
  refine ⟨c, [], [], ⟨rfl, rfl, rfl, id⟩, owns_nil _, by simp, by simp, ?_⟩
  rw [replaced c, ← isConns, List.append_nil, List.append_nil]

theorem deliver_serves (unique : (w.conns.map ConnIo.number).Nodup) (member : c ∈ w.conns)
    (a : Answers) : w.Serves c (w.deliver c a) := by
  rw [Worker.deliver]
  split
  · exact (serves_self unique member).after
  · split
    · exact (processH3_serves _ c a).after.before.before
    · exact (serves_self unique member).after.after.after

/-! ## A datagram that is handled -/

def Datagram.Admissible (d : Datagram) : Prop :=
  ∃ id, id.length ≤ 20 ∧ d.token = ascii "quiche" ++ d.peerAddr ++ id

theorem length_buffer {size : Nat} {bytes : Bytes} (fits : bytes.length ≤ size) :
    (buffer size bytes).length = size := by
  rw [buffer, List.length_append, List.length_replicate]
  omega

theorem validateToken_admissible (d : Datagram) :
    ∃ v, validateToken (buffer 154 d.token) d.token.length (buffer 128 d.peerAddr)
        d.peerAddr.length (buffer 20 []) 20 = .ok v ∧ (v.odcid ≠ none ↔ d.Admissible) := by
  have sized := d.token_le
  obtain ⟨v, validated, -, given⟩ := @validateToken_spec d.peerAddr (buffer 20 []) 20 d.token
    (List.replicate (154 - d.token.length) 0) (List.replicate (128 - d.peerAddr.length) 0)
    (by omega) (by simp [buffer])
  refine ⟨v, validated, ?_⟩
  rw [Option.ne_none_iff_exists']
  constructor
  · rintro ⟨out, isOut⟩
    obtain ⟨id, same, fits, -⟩ := (given out).mp isOut
    exact ⟨id, fits, same⟩
  · rintro ⟨id, fits, same⟩
    exact ⟨_, (given _).mpr ⟨id, same, fits, rfl⟩⟩

theorem mintToken_datagram (d : Datagram) :
    ∃ token n, mintToken (buffer 20 d.dcid) d.dcid.length (buffer 128 d.peerAddr)
        d.peerAddr.length (buffer 154 d.token) = .ok (token, n) ∧
      token.take n = ascii "quiche" ++ d.peerAddr ++ d.dcid := by
  have peer := d.peerAddr_le
  have id := d.dcid_le
  have six : (ascii "quiche").length = 6 := rfl
  obtain ⟨rest, minted⟩ := @mintToken_spec d.peerAddr d.dcid (buffer 154 d.token)
    (List.replicate (20 - d.dcid.length) 0) (List.replicate (128 - d.peerAddr.length) 0)
    (by rw [length_buffer d.token_le, List.length_append, List.length_append, six]; omega)
    (by rw [List.length_append, List.length_append, six]; omega)
  exact ⟨_, _, minted, List.take_left⟩

theorem hashFind_some {id : Bytes} {choice : Nat} (found : w.hashFind id choice = some c) :
    c ∈ w.conns ∧ c.key = id := by
  simpa using List.mem_of_getElem? found

theorem hashFind_none {id : Bytes} {choice : Nat} :
    w.hashFind id choice = none ↔ ∀ c ∈ w.conns, c.key ≠ id := by
  simp only [Worker.hashFind, List.getElem?_eq_none_iff]
  cases found : w.conns.filter (·.key = id) with
  | nil => simpa [List.filter_eq_nil_iff] using found
  | cons c rest =>
      have bound := Nat.mod_lt choice (List.length_pos_of_ne_nil (List.cons_ne_nil c rest))
      refine iff_of_false (Nat.not_le.mpr bound) fun absent => ?_
      have inside : c ∈ w.conns.filter (·.key = id) := by simp [found]
      simp only [List.mem_filter, decide_eq_true_eq] at inside
      exact absent c inside.1 inside.2

theorem handle_cases (w : Worker) (d : Datagram) (a : Answers) :
    ∃ u, w.handle d a = .ok u ∧
      ((∃ c ∈ w.conns, c.key = d.dcid ∧ u = w.deliver c a) ∨
        (∀ c ∈ w.conns, c.key ≠ d.dcid) ∧
          ((a.versionIsSupported = false ∧
              u = { w with sent := w.sent ++
                if a.written then [.versionNegotiation d.peerAddr] else [] }) ∨
            (a.versionIsSupported ∧ d.token = [] ∧
              u = { w with sent := w.sent ++
                if a.written then
                  [.retry d.peerAddr a.newCid (ascii "quiche" ++ d.peerAddr ++ d.dcid)]
                else [] }) ∨
            (a.versionIsSupported ∧ d.token ≠ [] ∧ ¬ (d.Admissible ∧ a.connNew) ∧ u = w) ∨
            (a.versionIsSupported ∧ d.Admissible ∧ a.connNew ∧
              u = (w.add d).1.deliver (w.add d).2 a))) := by
  rw [Worker.handle]
  cases found : w.hashFind d.dcid a.choice with
  | some c =>
      obtain ⟨member, same⟩ := hashFind_some found
      exact ⟨_, rfl, .inl ⟨c, member, same, rfl⟩⟩
  | none =>
      have absent := hashFind_none.mp found
      cases supported : a.versionIsSupported with
      | false => exact ⟨_, rfl, .inr ⟨absent, .inl ⟨rfl, rfl⟩⟩⟩
      | true =>
          by_cases bare : d.token = []
          · obtain ⟨token, n, minted, front⟩ := mintToken_datagram d
            refine ⟨_, ?_, .inr ⟨absent, .inr (.inl ⟨rfl, bare, rfl⟩)⟩⟩
            simp only [Bool.not_true, if_neg Bool.false_ne_true, bare, List.length_nil, if_true]
            rw [← bare, minted, ok_bind, front]
            rfl
          · obtain ⟨v, validated, valid⟩ := validateToken_admissible d
            have long : d.token.length ≠ 0 := by simpa using bare
            simp only [Bool.not_true, if_neg Bool.false_ne_true, if_neg long, validated, ok_bind]
            by_cases admissible : d.Admissible
            · rw [if_neg (valid.mpr admissible)]
              cases made : a.connNew with
              | false =>
                  exact ⟨_, rfl, .inr ⟨absent, .inr (.inr (.inl ⟨trivial, bare, by simp, rfl⟩))⟩⟩
              | true =>
                  exact ⟨_, rfl, .inr ⟨absent, .inr (.inr (.inr ⟨trivial, admissible, rfl, rfl⟩))⟩⟩
            · rw [if_pos (by simpa using mt valid.mp admissible)]
              exact ⟨_, rfl, .inr ⟨absent, .inr (.inr (.inl ⟨trivial, bare,
                fun both => admissible both.1, rfl⟩))⟩⟩

/-! ## The table and what is live -/

structure Worker.Sound (w : Worker) : Prop where
  unique : (w.conns.map ConnIo.number).Nodup
  below : ∀ c ∈ w.conns, c.number < w.next
  owns : Owns ∅ w.trace (held ConnIo.holds w.conns)

theorem sound_start : Worker.start.Sound := ⟨List.nodup_nil, by simp [Worker.start], owns_nil ∅⟩

theorem acquire_onTimeout {isClosed : Nat → Bool} {h : Handle} :
    .acquire h ∉ c.onTimeout isClosed := by
  intro acquired
  simp only [ConnIo.onTimeout, ConnIo.flushEgress, List.mem_append] at acquired
  rcases acquired with (used | used) | rest
  · simp [ConnIo.uses] at used
  · simp [ConnIo.uses] at used
  · split at rest
    · simp only [ConnIo.free] at rest
      split at rest <;> simp at rest
    · simp [ConnIo.uses] at rest

theorem Worker.Sound.onTimeouts (sound : w.Sound) (isClosed : Nat → Bool) :
    (w.onTimeouts isClosed).Sound := by
  obtain ⟨unique, below, owns⟩ := sound
  refine ⟨unique.sublist (List.filter_sublist.map _),
    fun c member => below c (List.mem_of_mem_filter member), owns.append ?_⟩
  have apart : w.conns.Pairwise fun c e => Disjoint c.holds e.holds :=
    (List.pairwise_map.mp unique).imp disjoint_holds
  have swept := @Owns.flatMap _ _ _ _ (fun c => if isClosed c.number then ∅ else c.holds) _ _
    (fun c _ => c.owns_onTimeout isClosed) (fun c => ?_) (fun c h => acquire_onTimeout) apart
  · have rest : held (fun c => if isClosed c.number then ∅ else c.holds) w.conns =
        held ConnIo.holds (w.onTimeouts isClosed).conns := by
      ext h
      simp only [mem_held, Worker.onTimeouts, List.mem_filter, Bool.not_eq_true', and_assoc]
      refine exists_congr fun c => and_congr_right fun _ => ?_
      cases isClosed c.number <;> simp
    rwa [rest] at swept
  · split
    · exact Finset.empty_subset _
    · exact Finset.Subset.refl _

theorem Worker.Sound.serves {u : Worker} (sound : w.Sound) (member : c ∈ w.conns)
    (serves : w.Serves c u) : u.Sound := by
  obtain ⟨unique, below, owns⟩ := sound
  obtain ⟨front, back, isConns, apart, replaced⟩ := exists_place unique member
  obtain ⟨c', touches, responses, becomes, own, fresh, -, rfl⟩ := serves
  have numbers : (front ++ c' :: back).map ConnIo.number = w.conns.map ConnIo.number := by
    simp [isConns, becomes.1]
  refine ⟨?_, ?_, owns.append ?_⟩ <;> simp only [replaced c']
  · rwa [numbers]
  · intro e inside
    have old : e.number ∈ w.conns.map ConnIo.number := numbers ▸ List.mem_map_of_mem inside
    obtain ⟨e', there, same⟩ := List.mem_map.mp old
    exact same ▸ below e' there
  · have split : ∀ e : ConnIo, held ConnIo.holds (front ++ e :: back) =
        e.holds ∪ held ConnIo.holds (front ++ back) := by
      intro e
      rw [held_append, held_append, held]
      exact Finset.union_left_comm _ _ _
    rw [isConns, split, split]
    refine own.frame ?_ fun h acquired => ?_
    · rw [Finset.disjoint_left]
      intro h mine yours
      obtain ⟨e, inside, theirs⟩ := mem_held.mp yours
      exact Finset.disjoint_left.mp (disjoint_holds (apart e inside).symm) mine theirs
    · intro yours
      obtain ⟨e, inside, theirs⟩ := mem_held.mp yours
      rcases fresh h acquired with rfl | rfl
      · have same := number_of_holds theirs
        simp only [reduceCtorEq, Handle.http3.injEq, false_or] at same
        exact apart e inside same.symm
      · exact event_notMem_holds e theirs

theorem Worker.Sound.add (sound : w.Sound) (d : Datagram) :
    (w.add d).1.Sound ∧ (w.add d).2 ∈ (w.add d).1.conns := by
  obtain ⟨unique, below, owns⟩ := sound
  refine ⟨⟨?_, ?_, owns.append ?_⟩, by simp [Worker.add]⟩
  · rw [Worker.add, List.map_append, List.nodup_append]
    refine ⟨unique, by simp, ?_⟩
    simp only [List.map_cons, List.map_nil, List.mem_singleton, List.mem_map]
    rintro _ ⟨e, inside, rfl⟩ _ rfl
    exact Nat.ne_of_lt (below e inside)
  · intro e inside
    rcases List.mem_append.mp inside with old | new
    · exact Nat.lt_succ_of_lt (below e old)
    · rw [List.mem_singleton.mp new]
      exact Nat.lt_succ_self w.next
  · have absent : ∀ h, h ∈ held ConnIo.holds w.conns →
        h ≠ .conn w.next ∧ h ≠ .connIo w.next := by
      intro h inside
      obtain ⟨e, there, holds⟩ := mem_held.mp inside
      have other := Nat.ne_of_lt (below e there)
      rcases number_of_holds holds with rfl | rfl | rfl <;> simp [other]
    have conn := owns_acquire fun inside => (absent (.conn w.next) inside).1 rfl
    have block := @owns_acquire _ _ (insert (.conn w.next) (held ConnIo.holds w.conns))
      (.connIo w.next) (by
        rw [Finset.mem_insert, not_or]
        exact ⟨by simp, fun inside => (absent (.connIo w.next) inside).2 rfl⟩)
    have both := conn.append block
    have made : held ConnIo.holds (w.add d).1.conns =
        insert (.connIo w.next) (insert (.conn w.next) (held ConnIo.holds w.conns)) := by
      ext h
      simp only [Worker.add, held_append, held, ConnIo.holds, Finset.mem_union, Finset.mem_insert,
        Finset.mem_singleton]
      grind
    rwa [made]

theorem iterate_sound (w : Worker) (i : Iteration) (u : Worker) (sound : w.Sound)
    (taken : w.iterate i = some u) : u.Sound := by
  rw [Worker.iterate] at taken
  split at taken
  · cases taken
  have swept := sound.onTimeouts i.isClosed
  cases polled : i.poll with
  | failed =>
      rw [polled] at taken
      cases taken
      exact ⟨swept.unique, swept.below, swept.owns⟩
  | nothing =>
      rw [polled] at taken
      cases taken
      exact swept
  | datagram d a =>
      simp only [polled] at taken
      obtain ⟨v, handled, cases⟩ := handle_cases (w.onTimeouts i.isClosed) d a
      rw [handled] at taken
      obtain rfl : v = u := Option.some.inj taken
      rcases cases with ⟨c, member, -, rfl⟩ |
        ⟨-, ⟨-, rfl⟩ | ⟨-, -, rfl⟩ | ⟨-, -, -, rfl⟩ | ⟨-, -, -, rfl⟩⟩
      · exact swept.serves member (deliver_serves swept.unique member a)
      · exact ⟨swept.unique, swept.below, swept.owns⟩
      · exact ⟨swept.unique, swept.below, swept.owns⟩
      · exact swept
      · obtain ⟨added, member⟩ := swept.add d
        exact added.serves member (deliver_serves added.unique member a)

theorem iterate_isSome (w : Worker) (i : Iteration) : (w.iterate i).isSome ↔ w.running := by
  rw [Worker.iterate]
  cases w.running with
  | false => simp
  | true =>
      cases polled : i.poll with
      | datagram d a =>
          obtain ⟨u, handled, -⟩ := handle_cases (w.onTimeouts i.isClosed) d a
          simp [handled, Except.toOption]
      | _ => simp

/-- Nothing is used after it was freed, nothing is freed twice, and all that is not freed yet
belongs to a connection in the table; no datagram stops the worker. -/
theorem worker_owns {inputs : List Iteration}
    (reached : run Worker.iterate Worker.start inputs = some w) :
    Owns ∅ w.trace (held ConnIo.holds w.conns) ∧ ∀ i, (w.iterate i).isSome ↔ w.running :=
  ⟨(run_invariant _ iterate_sound sound_start reached).owns, iterate_isSome w⟩

def Datagram.bearing (token : Bytes) (fits : token.length ≤ 154) : Datagram :=
  ⟨[1, 2], [3], [4], token, by simp, by simp, by simp, fits⟩

def Answers.well : Answers := ⟨0, true, true, [5], true, true, true, true, [.headers 0, .data]⟩

def Iteration.receive (d : Datagram) : Iteration := ⟨fun _ => false, .datagram d .well⟩

theorem worker_owns_two : ∃ w,
    run Worker.iterate Worker.start
      [.receive (.bearing (ascii "quiche" ++ [1, 2]) (by decide)), ⟨fun _ => true, .nothing⟩] =
        some w ∧
      Owns ∅ w.trace (held ConnIo.holds w.conns) := by
  obtain ⟨w, reached⟩ := Option.isSome_iff_exists.mp <|
    show (run Worker.iterate Worker.start
      [.receive (.bearing (ascii "quiche" ++ [1, 2]) (by decide)),
        ⟨fun _ => true, .nothing⟩]).isSome from rfl
  exact ⟨w, reached, (worker_owns reached).1⟩

/-! ## Who gets in -/

instance : Decidable d.Admissible :=
  decidable_of_iff
    (ascii "quiche" ++ d.peerAddr <+: d.token ∧ d.token.length ≤ 6 + d.peerAddr.length + 20) <| by
  have six : (ascii "quiche").length = 6 := rfl
  constructor
  · rintro ⟨⟨id, same⟩, fits⟩
    refine ⟨id, ?_, same.symm⟩
    rw [← same, List.length_append, List.length_append, six] at fits
    omega
  · rintro ⟨id, fits, same⟩
    refine ⟨⟨id, same.symm⟩, ?_⟩
    rw [same, List.length_append, List.length_append, six]
    omega

def Poll.admissible : Poll → Bool
  | .datagram d _ => d.Admissible
  | _ => false

structure Worker.Traced (w : Worker) (past : List Iteration) : Prop where
  admitted : ∀ c ∈ w.conns, ∃ d a, .datagram d a ∈ past.map Iteration.poll ∧ d.Admissible ∧
    d.peerAddr = c.peerAddr ∧ d.scid = c.key
  count : w.next ≤ (past.map Iteration.poll).countP Poll.admissible
  retries : ∀ peer newCid token, .retry peer newCid token ∈ w.sent →
    ∃ d a, .datagram d a ∈ past.map Iteration.poll ∧ d.peerAddr = peer ∧ d.token = [] ∧
      token = ascii "quiche" ++ peer ++ d.dcid

theorem Worker.Traced.more {past : List Iteration} (traced : w.Traced past) (i : Iteration) :
    w.Traced (past ++ [i]) := by
  have kept : ∀ p, p ∈ past.map Iteration.poll → p ∈ (past ++ [i]).map Iteration.poll := by
    intro p inside
    rw [List.map_append]
    exact List.mem_append_left _ inside
  refine ⟨fun c member => ?_, traced.count.trans ?_, fun peer newCid token sent => ?_⟩
  · obtain ⟨d, a, came, rest⟩ := traced.admitted c member
    exact ⟨d, a, kept _ came, rest⟩
  · rw [List.map_append, List.countP_append]
    exact Nat.le_add_right _ _
  · obtain ⟨d, a, came, rest⟩ := traced.retries peer newCid token sent
    exact ⟨d, a, kept _ came, rest⟩

theorem Worker.Traced.onTimeouts {past : List Iteration} (traced : w.Traced past)
    (isClosed : Nat → Bool) : (w.onTimeouts isClosed).Traced past :=
  ⟨fun c member => traced.admitted c (List.mem_of_mem_filter member), traced.count, traced.retries⟩

theorem Worker.Traced.serves {past : List Iteration} {u : Worker} (traced : w.Traced past)
    (member : c ∈ w.conns) (serves : w.Serves c u) : u.Traced past := by
  obtain ⟨c', touches, responses, becomes, -, -, answers, rfl⟩ := serves
  refine ⟨fun e inside => ?_, traced.count, fun peer newCid token sent => ?_⟩
  · obtain ⟨e', there, same⟩ := List.mem_map.mp inside
    split at same
    · subst same
      rw [becomes.2.1, becomes.2.2.1]
      exact traced.admitted c member
    · exact same ▸ traced.admitted e' there
  · rcases List.mem_append.mp sent with earlier | response
    · exact traced.retries peer newCid token earlier
    · exact absurd (answers _ response) id

theorem iterate_traced (past : List Iteration) (w : Worker) (i : Iteration) (u : Worker)
    (sound : w.Sound) (traced : w.Traced past) (taken : w.iterate i = some u) :
    u.Traced (past ++ [i]) := by
  rw [Worker.iterate] at taken
  split at taken
  · cases taken
  have swept := sound.onTimeouts i.isClosed
  have before := (traced.onTimeouts i.isClosed).more i
  cases polled : i.poll with
  | failed =>
      rw [polled] at taken
      cases taken
      exact ⟨before.admitted, before.count, before.retries⟩
  | nothing =>
      rw [polled] at taken
      cases taken
      exact before
  | datagram d a =>
      have came : .datagram d a ∈ (past ++ [i]).map Iteration.poll := by simp [polled]
      simp only [polled] at taken
      obtain ⟨v, handled, cases⟩ := handle_cases (w.onTimeouts i.isClosed) d a
      rw [handled] at taken
      obtain rfl : v = u := Option.some.inj taken
      rcases cases with ⟨c, member, -, rfl⟩ |
        ⟨-, ⟨-, rfl⟩ | ⟨-, bare, rfl⟩ | ⟨-, -, -, rfl⟩ | ⟨-, admissible, -, rfl⟩⟩
      · exact before.serves member (deliver_serves swept.unique member a)
      · refine ⟨before.admitted, before.count, fun peer newCid token sent => ?_⟩
        rcases List.mem_append.mp sent with earlier | negotiation
        · exact before.retries peer newCid token earlier
        · split at negotiation <;> simp at negotiation
      · refine ⟨before.admitted, before.count, fun peer newCid token sent => ?_⟩
        rcases List.mem_append.mp sent with earlier | retry
        · exact before.retries peer newCid token earlier
        · split at retry
          · simp only [List.mem_singleton, Sent.retry.injEq] at retry
            obtain ⟨rfl, -, rfl⟩ := retry
            exact ⟨d, a, came, rfl, bare, rfl⟩
          · simp at retry
      · exact before
      · obtain ⟨added, member⟩ := swept.add d
        have known : ((w.onTimeouts i.isClosed).add d).1.Traced (past ++ [i]) := by
          refine ⟨fun c inside => ?_, ?_, before.retries⟩
          · rcases List.mem_append.mp inside with old | new
            · exact before.admitted c old
            · rw [List.mem_singleton.mp new]
              exact ⟨d, a, came, admissible, rfl, rfl⟩
          · rw [List.map_append, List.countP_append]
            have kept : (w.onTimeouts i.isClosed).next = w.next := rfl
            simpa [polled, Poll.admissible, admissible, Worker.add, kept] using traced.count
        exact known.serves member (deliver_serves added.unique member a)

theorem run_traced {inputs : List Iteration}
    (reached : run Worker.iterate Worker.start inputs = some w) : w.Sound ∧ w.Traced inputs := by
  refine @run_history _ _ Worker.iterate (fun past w => w.Sound ∧ w.Traced past) _ _ _ _
    (fun past w i u both _ taken => ?_) ?_ (everyStep_true _ _ _) reached
  · exact ⟨iterate_sound w i u both.1 taken, iterate_traced past w i u both.1 both.2 taken⟩
  · exact ⟨sound_start, by simp [Worker.start], Nat.zero_le _, by simp [Worker.start]⟩

/-- Each connection was made for a datagram whose token names the address of the peer, and no
datagram made two. -/
theorem worker_admits {inputs : List Iteration}
    (reached : run Worker.iterate Worker.start inputs = some w) :
    (∀ c ∈ w.conns, ∃ d a, .datagram d a ∈ inputs.map Iteration.poll ∧ d.Admissible ∧
      d.peerAddr = c.peerAddr ∧ d.scid = c.key) ∧
    w.next ≤ (inputs.map Iteration.poll).countP Poll.admissible :=
  ⟨(run_traced reached).2.admitted, (run_traced reached).2.count⟩

theorem worker_admits_two : ∃ w,
    run Worker.iterate Worker.start
      [.receive (.bearing [] (by decide)),
        .receive (.bearing (ascii "quiche" ++ [1, 2, 4]) (by decide))] = some w ∧
      w.next ≤ 1 := by
  obtain ⟨w, reached⟩ := Option.isSome_iff_exists.mp <|
    show (run Worker.iterate Worker.start
      [.receive (.bearing [] (by decide)),
        .receive (.bearing (ascii "quiche" ++ [1, 2, 4]) (by decide))]).isSome by
      decide +kernel
  exact ⟨w, reached, (worker_admits reached).2⟩

theorem handle_adds (sound : w.Sound) (supported : a.versionIsSupported) (made : a.connNew)
    (admissible : d.Admissible) (absent : ∀ c ∈ w.conns, c.key ≠ d.dcid) :
    ∃ u c, w.handle d a = .ok u ∧ u.conns = w.conns ++ [c] ∧ c.key = d.scid ∧
      c.peerAddr = d.peerAddr ∧ u.next = w.next + 1 ∧ u.running = w.running := by
  have token : d.token ≠ [] := by
    obtain ⟨id, -, same⟩ := admissible
    rw [same]
    exact fun none => by simp [ascii] at none
  obtain ⟨u, handled, cases⟩ := handle_cases w d a
  rcases cases with ⟨c, member, same, -⟩ |
    ⟨-, ⟨old, -⟩ | ⟨-, bare, -⟩ | ⟨-, -, refused, -⟩ | ⟨-, -, -, rfl⟩⟩
  · exact absurd same (absent c member)
  · simp [supported] at old
  · exact absurd bare token
  · exact absurd ⟨admissible, made⟩ refused
  · obtain ⟨added, member⟩ := sound.add d
    obtain ⟨c', touches, responses, becomes, -, -, -, result⟩ :=
      deliver_serves added.unique member a
    have others : ∀ e ∈ w.conns, e.number ≠ w.next := fun e inside =>
      Nat.ne_of_lt (sound.below e inside)
    have table :
        w.conns.map (fun e => if e.number = (w.add d).2.number then c' else e) = w.conns := by
      conv_rhs => rw [← List.map_id w.conns]
      exact List.map_congr_left fun e inside => if_neg (others e inside)
    refine ⟨_, c', handled, ?_, becomes.2.1, becomes.2.2.1, ?_, ?_⟩
    · rw [result]
      exact List.map_append.trans (congrArg₂ (· ++ ·) table (congrArg (fun c => [c]) (if_pos rfl)))
    · rw [result]
      rfl
    · rw [result]
      rfl

theorem run_sound {inputs : List Iteration} {v : Worker}
    (reached : run Worker.iterate Worker.start inputs = some v) : v.Sound :=
  (run_traced reached).1

/-- The token of a retry lets in who was sent it, at any time and only from the same address; the
worker keeps nothing for it. -/
theorem retry_admits {inputs : List Iteration} {peer newCid token : Bytes}
    (reached : run Worker.iterate Worker.start inputs = some w)
    (sent : .retry peer newCid token ∈ w.sent) :
    (∃ d a, .datagram d a ∈ inputs.map Iteration.poll ∧ d.peerAddr = peer ∧ d.token = [] ∧
      token = ascii "quiche" ++ peer ++ d.dcid) ∧
    ∀ (later : List Iteration) (v : Worker) (e : Datagram) (a : Answers),
      run Worker.iterate Worker.start later = some v → e.token = token →
      a.versionIsSupported → a.connNew → (∀ c ∈ v.conns, c.key ≠ e.dcid) →
      e.peerAddr.length = peer.length →
        if e.peerAddr = peer then
          ∃ u c, v.handle e a = .ok u ∧ u.conns = v.conns ++ [c] ∧ c.key = e.scid ∧
            c.peerAddr = peer ∧ u.next = v.next + 1 ∧ u.running = v.running
        else v.handle e a = .ok v := by
  obtain ⟨d, a, came, rfl, bare, rfl⟩ := (run_traced reached).2.retries peer newCid token sent
  refine ⟨⟨d, a, came, rfl, bare, rfl⟩, ?_⟩
  intro later v e b arrived echoed supported made absent sameLength
  split
  · rename_i same
    have admissible : e.Admissible := ⟨d.dcid, d.dcid_le, by rw [echoed, same]⟩
    rw [← same]
    exact handle_adds (run_sound arrived) supported made admissible absent
  · rename_i other
    have refused : ¬ e.Admissible := by
      rintro ⟨id, -, same⟩
      rw [echoed, List.append_assoc, List.append_assoc, List.append_cancel_left_eq] at same
      exact other (List.append_inj_left same sameLength.symm).symm
    have token : e.token ≠ [] := by
      rw [echoed]
      exact fun none => by simp [ascii] at none
    obtain ⟨u, handled, cases⟩ := handle_cases v e b
    rcases cases with ⟨c, member, same, -⟩ |
      ⟨-, ⟨old, -⟩ | ⟨-, bare, -⟩ | ⟨-, -, -, rfl⟩ | ⟨-, admissible, -, -⟩⟩
    · exact absurd same (absent c member)
    · simp [supported] at old
    · exact absurd bare token
    · exact handled
    · exact absurd admissible refused

theorem retry_admits_first : ∃ u c,
    Worker.start.handle (.bearing (ascii "quiche" ++ [1, 2, 4]) (by decide)) .well = .ok u ∧
      u.conns = [c] ∧ c.peerAddr = [1, 2] := by
  obtain ⟨w, reached, sent⟩ : ∃ w,
      run Worker.iterate Worker.start [.receive (.bearing [] (by decide))] = some w ∧
        .retry [1, 2] [5] (ascii "quiche" ++ [1, 2, 4]) ∈ w.sent := by
    have asked : (run Worker.iterate Worker.start
        [.receive (.bearing [] (by decide))]).any fun w =>
          decide (.retry [1, 2] [5] (ascii "quiche" ++ [1, 2, 4]) ∈ w.sent) := by
      decide +kernel
    obtain ⟨w, reached, sent⟩ := (Option.any_eq_true _ _).mp asked
    exact ⟨w, reached, of_decide_eq_true sent⟩
  obtain ⟨u, c, handled, table, -, peer, -⟩ :=
    (retry_admits reached sent).2 [] Worker.start
      (.bearing (ascii "quiche" ++ [1, 2, 4]) (by decide)) .well rfl rfl rfl rfl
      (by simp [Worker.start]) rfl
  exact ⟨u, c, handled, table, peer⟩

/-- A client that repeats its first datagram gets another connection each time: it is looked up by
an id that no connection has been given. -/
theorem copies_add {inputs : List Iteration} {u : Worker} {copies : List Answers}
    (reached : run Worker.iterate Worker.start inputs = some w) (admissible : d.Admissible)
    (other : d.dcid ≠ d.scid) (absent : ∀ c ∈ w.conns, c.key ≠ d.dcid)
    (answered : ∀ a ∈ copies, a.versionIsSupported ∧ a.connNew)
    (repeated : run Worker.iterate w
      (copies.map fun a => ⟨fun _ => false, .datagram d a⟩) = some u) :
    ∃ more, u.conns = w.conns ++ more ∧ more.length = copies.length ∧
      ∀ c ∈ more, c.key = d.scid ∧ c.peerAddr = d.peerAddr := by
  have sound := run_sound reached
  clear reached
  induction copies generalizing w with
  | nil =>
      cases repeated
      exact ⟨[], by simp, rfl, by simp⟩
  | cons a copies ih =>
      obtain ⟨v, taken, rest⟩ := Option.bind_eq_some_iff.mp repeated
      have next := iterate_sound w _ v sound taken
      rw [Worker.iterate] at taken
      split at taken
      · cases taken
      have idle : (w.onTimeouts fun _ => false).conns = w.conns := by simp [Worker.onTimeouts]
      obtain ⟨supported, made⟩ := answered a (by simp)
      obtain ⟨v', c, handled, grown, key, peer, -⟩ :=
        handle_adds (sound.onTimeouts fun _ => false) supported made admissible (idle ▸ absent)
      have same : ((w.onTimeouts fun _ => false).handle d a).toOption = some v := taken
      rw [handled] at same
      obtain rfl : v' = v := Option.some.inj same
      rw [idle] at grown
      have still : ∀ e ∈ v'.conns, e.key ≠ d.dcid := by
        intro e inside
        rcases List.mem_append.mp (grown ▸ inside) with old | new
        · exact absent e old
        · rw [List.mem_singleton.mp new, key]
          exact other.symm
      obtain ⟨more, all, count, same⟩ :=
        ih still (fun b member => answered b (by simp [member])) rest next
      refine ⟨c :: more, by rw [all, grown, List.append_assoc]; rfl, by simp [count], ?_⟩
      intro e inside
      rcases List.mem_cons.mp inside with rfl | inside
      · exact ⟨key, peer⟩
      · exact same e inside

theorem copies_add_two : ∃ u,
    run Worker.iterate Worker.start
      ([Answers.well, .well].map fun a =>
        ⟨fun _ => false, .datagram (.bearing (ascii "quiche" ++ [1, 2]) (by decide)) a⟩) =
        some u ∧
      u.conns.length = 2 := by
  obtain ⟨u, reached⟩ := Option.isSome_iff_exists.mp <|
    show (run Worker.iterate Worker.start
      ([Answers.well, .well].map fun a =>
        ⟨fun _ => false, .datagram (.bearing (ascii "quiche" ++ [1, 2]) (by decide)) a⟩)).isSome by
      decide +kernel
  obtain ⟨more, all, count, -⟩ := @copies_add Worker.start _ [] u [.well, .well] rfl (by decide)
    (by decide) (by simp [Worker.start]) (by simp [Answers.well]) reached
  exact ⟨u, reached, by simp [all, count, Worker.start]⟩

end ProxyServer.Http3
