import ProxyServer.Request.Parsing

namespace ProxyServer
open Lib

def Store.Keyed (ok : Bytes → Prop) (σ : Store) : Prop := ∀ x ∈ σ.items, ok x.entry.url

namespace Store

variable {σ : Store} {ok : Bytes → Prop} {url : Bytes}

theorem Keyed.find (keyed : σ.Keyed ok) (url : Bytes) (now : Int) :
    (σ.find url now).1.Keyed ok := by
  unfold Store.find
  cases σ.newest url with
  | none => exact keyed
  | some x =>
      dsimp only
      split
      · exact keyed
      · intro y member
        obtain ⟨e, present, same⟩ := σ.mem_use.mp member
        have touched : y.entry.url = e.url := by
          rw [same]
          split <;> rfl
        rw [touched]
        exact keyed _ present

theorem Keyed.hit (keyed : σ.Keyed ok) {now : Int} {a : Addr}
    (hit : (σ.find url now).2 = .hit a) : ok url := by
  unfold Store.find at hit
  cases found : σ.newest url with
  | none => simp [found] at hit
  | some x =>
      obtain ⟨member, isUrl⟩ := σ.newest_mem found
      exact isUrl ▸ keyed x member

theorem Keyed.purge (keyed : σ.Keyed ok) : (σ.purge url).Keyed ok := by
  unfold Store.purge
  cases σ.newest url with
  | none => exact keyed
  | some x =>
      intro y member
      exact keyed y (σ.mem_remove.mp member).1

theorem Keyed.add (keyed : σ.Keyed ok) {c : Cache.AddCall} (isOk : ok c.url) :
    (σ.add c).1.Keyed ok := by
  cases refused : c.refused with
  | true => simpa [Store.add, refused] using keyed
  | false =>
      obtain ⟨new, items, isNew⟩ := σ.add_items refused
      intro x member
      rw [items, List.mem_append] at member
      cases member with
      | inl old => exact keyed x (survivors_subset _ _ _ old)
      | inr new => exact (isNew x new).2 ▸ isOk

end Store

/-- A hit in the cache, bytes that are not the server's own, or a connection to an upstream. -/
def Event.guarded : Event → Bool
  | .lookup hit => hit
  | .connect _ | .cached _ | .relay _ => true
  | .auth _ _ | .domain _ _ | .url _ _ | .reply _ => false

def Cleared (p : ParsedRequest) (log : List Event) : Prop :=
  .auth p.proxyAuthorization true ∈ log ∧ (∀ host, p.host = some host → .domain host false ∈ log) ∧
    ∃ path, p.path = some path ∧ .url path false ∈ log

variable (parser : Parser)

def Vetted (request : Bytes) (log : List Event) : Prop :=
  ∃ p, parser.parse request = some p ∧ Cleared p log

def Mediated (th : Thread) : Prop :=
  ∀ past e future, th.log = past ++ e :: future → e.guarded = true → Vetted parser th.request past

def Checked (th : Thread) : Prop :=
  match th.stage with
  | .receiving => th.log = []
  | .authenticating | .finished => True
  | .checkingDomain => ∀ p, th.parsed = some p → .auth p.proxyAuthorization true ∈ th.log
  | .checkingUrl => ∀ p, th.parsed = some p → .auth p.proxyAuthorization true ∈ th.log ∧
      ∀ host, p.host = some host → .domain host false ∈ th.log
  | .lookingUp | .purging | .missed => ∀ p, th.parsed = some p → Cleared p th.log
  | .found _ | .serving _ _ _ => Vetted parser th.request th.log
  | .answering events stored =>
      (∃ e ∈ events, e.guarded = true) ∨ stored ≠ none → Vetted parser th.request th.log

def Stage.active : Stage → Bool
  | .receiving | .finished => false
  | _ => true

structure Sound (th : Thread) : Prop where
  parsed : th.stage.active = true → th.parsed = parser.parse th.request
  mediated : Mediated parser th
  checked : Checked parser th

variable {parser} {th : Thread}

theorem Cleared.append {p : ParsedRequest} {log : List Event} (cleared : Cleared p log)
    (more : List Event) : Cleared p (log ++ more) := by
  obtain ⟨auth, domain, path, isPath, url⟩ := cleared
  refine ⟨by simp [auth], ?_, path, isPath, by simp [url]⟩
  intro host isHost
  simp [domain host isHost]

theorem Mediated.record (mediated : Mediated parser th) {e : Event} {stage : Stage}
    (vetted : e.guarded = true → Vetted parser th.request th.log) :
    Mediated parser (th.record e stage) := by
  intro past e' future split guarded
  rcases List.eq_nil_or_concat future with rfl | ⟨future, last, rfl⟩
  · obtain ⟨rfl, same⟩ := List.append_inj' split rfl
    cases same
    exact vetted guarded
  · apply mediated past e' future _ guarded
    have cut : th.log ++ [e] = (past ++ e' :: future) ++ [last] := by
      simpa [Thread.record] using split
    exact (List.append_inj' cut rfl).1

theorem Sound.record (sound : Sound parser th) (active : th.stage.active = true) {e : Event}
    {stage : Stage} (vetted : e.guarded = true → Vetted parser th.request th.log)
    (checked : Checked parser (th.record e stage)) : Sound parser (th.record e stage) where
  parsed _ := sound.parsed active
  mediated := sound.mediated.record vetted
  checked := checked

theorem Sound.check (sound : Sound parser th) (active : th.stage.active = true) {e : Event}
    {stage : Stage} (own : e.guarded = false) (checked : Checked parser (th.record e stage)) :
    Sound parser (th.record e stage) :=
  sound.record active (fun guarded => absurd guarded (by simp [own])) checked

theorem Sound.goto (sound : Sound parser th) (active : th.stage.active = true) {stage : Stage}
    (checked : Checked parser (th.goto stage)) : Sound parser (th.goto stage) where
  parsed _ := sound.parsed active
  mediated := sound.mediated
  checked := checked

theorem bufferString_eq {maxBytes : Nat} {received : Bytes} (short : received.length < maxBytes) :
    bufferString maxBytes received = requestString received := by
  obtain ⟨n, room⟩ := Nat.exists_eq_add_of_lt short
  have pad : maxBytes - received.length = n + 1 := by omega
  simp [bufferString, requestString, cstr, List.takeWhile_append, pad, List.replicate_succ]

theorem receiveRequest_short {maxBytes : Nat} {request : ClientRequest maxBytes} {received : Bytes}
    (read : receiveRequest maxBytes request.segments = some received) :
    received.length < maxBytes := by
  have headers (buffer : Bytes) (rest : List Bytes) :
      (readHeaders maxBytes buffer rest).length ≤ buffer.length + rest.flatten.length := by
    induction rest generalizing buffer with
    | nil => simp [readHeaders]
    | cons segment rest ih =>
        rw [readHeaders]
        split
        · have bound := ih (buffer ++ segment)
          simp only [List.flatten_cons, List.length_append] at bound ⊢
          omega
        · simp
  have short := request.short
  cases segments : request.segments with
  | nil => simp [segments, receiveRequest] at read
  | cons first rest =>
      rw [segments, receiveRequest] at read
      split at read
      · cases read
      · cases read
        rw [segments] at short
        simpa using (headers first rest).trans_lt (by simpa using short)

theorem Sound.receive {maxBytes : Nat} (sound : Sound parser th) (fresh : th.stage = .receiving)
    (request : ClientRequest maxBytes) (malloc : Bool) :
    Sound parser (th.receive parser request malloc) := by
  have empty : th.log = [] := by simpa [Checked, fresh] using sound.checked
  have finished : Sound parser (th.goto .finished) := by
    constructor
    · intro active
      cases active
    · exact sound.mediated
    · trivial
  have read (received : Bytes) (parsed : Option ParsedRequest) (stage : Stage)
      (isParsed : parsed = parser.parse (requestString received))
      (checked : Checked parser ⟨received, parsed, stage, th.log⟩) :
      Sound parser ⟨received, parsed, stage, th.log⟩ := by
    constructor
    · exact fun _ => isParsed
    · intro past e future split
      simp [empty] at split
    · exact checked
  unfold Thread.receive
  cases got : receiveRequest maxBytes request.segments with
  | none => exact finished
  | some received =>
      dsimp only
      rw [bufferString_eq (receiveRequest_short got)]
      split
      · exact finished
      · split
        · rename_i p accepted
          exact read received (some p) .authenticating accepted.symm trivial
        · rename_i failed
          apply read received none .lookingUp failed.symm
          intro p isParsed
          cases isParsed

theorem Sound.vetted (sound : Sound parser th) (active : th.stage.active = true)
    {p : ParsedRequest} (parsed : th.parsed = some p) (cleared : Cleared p th.log) :
    Vetted parser th.request th.log :=
  ⟨p, sound.parsed active ▸ parsed, cleared⟩

theorem Sound.dispatch {maxBytes : Nat} (sound : Sound parser th) (missed : th.stage = .missed)
    (u : Upstream maxBytes) : Sound parser (th.goto (th.dispatch u)) := by
  have active : th.stage.active = true := by rw [missed]; rfl
  apply sound.goto active
  cases parsed : th.parsed with
  | none =>
      unfold Thread.dispatch
      rw [parsed]
      dsimp only
      split
      · trivial
      · simp [Checked, Thread.goto, Event.guarded]
  | some p =>
      have checked : ∀ p, th.parsed = some p → Cleared p th.log := by
        simpa [Checked, missed] using sound.checked
      have vetted := sound.vetted active parsed (checked p parsed)
      have answers (events : List Event) (stored : Option (Bytes × Int)) :
          Checked parser (th.goto (.answering events stored)) := fun _ => vetted
      unfold Thread.dispatch
      rw [parsed]
      dsimp only
      split_ifs <;> apply answers

theorem checked_refused (e : Event) (status : Nat) :
    Checked parser (th.record e (.answering [.reply status] none)) := by
  simp [Checked, Thread.record, Event.guarded]

theorem Sound.authenticate (sound : Sound parser th) {p : ParsedRequest}
    (stage : th.stage = .authenticating) (parsed : th.parsed = some p) (allowed : Bool) :
    Sound parser (th.record (.auth p.proxyAuthorization allowed)
      (if allowed then .checkingDomain else .answering [.reply 407] none)) := by
  apply sound.check (by rw [stage]; rfl) rfl
  cases allowed with
  | false => exact checked_refused _ _
  | true =>
      intro p' same
      obtain rfl : p = p' := Option.some.inj (parsed.symm.trans same)
      simp [Thread.record]

theorem Sound.checkDomain (sound : Sound parser th) {p : ParsedRequest} {host : Bytes}
    (stage : th.stage = .checkingDomain) (parsed : th.parsed = some p) (isHost : p.host = some host)
    (blocked : Bool) :
    Sound parser (th.record (.domain host blocked)
      (if blocked then .answering [.reply 403] none else .checkingUrl)) := by
  apply sound.check (by rw [stage]; rfl) rfl
  cases blocked with
  | true => exact checked_refused _ _
  | false =>
      have auth : ∀ p, th.parsed = some p → .auth p.proxyAuthorization true ∈ th.log := by
        simpa [Checked, stage] using sound.checked
      intro p' same
      obtain rfl : p = p' := Option.some.inj (parsed.symm.trans same)
      refine ⟨by simp [Thread.record, auth p parsed], ?_⟩
      intro host' isHost'
      obtain rfl : host = host' := Option.some.inj (isHost.symm.trans isHost')
      simp [Thread.record]

theorem Sound.checkUrl (sound : Sound parser th) {p : ParsedRequest} {path : Bytes}
    (stage : th.stage = .checkingUrl) (parsed : th.parsed = some p) (isPath : p.path = some path)
    (blocked : Bool) :
    Sound parser (th.record (.url path blocked)
      (if blocked then .answering [.reply 403] none else .lookingUp)) := by
  apply sound.check (by rw [stage]; rfl) rfl
  cases blocked with
  | true => exact checked_refused _ _
  | false =>
      have before : ∀ p, th.parsed = some p → .auth p.proxyAuthorization true ∈ th.log ∧
          ∀ host, p.host = some host → .domain host false ∈ th.log := by
        simpa [Checked, stage] using sound.checked
      obtain ⟨auth, domain⟩ := before p parsed
      intro p' same
      obtain rfl : p = p' := Option.some.inj (parsed.symm.trans same)
      refine ⟨by simp [Thread.record, auth], ?_, path, isPath, by simp [Thread.record]⟩
      intro host isHost
      simp [Thread.record, domain host isHost]

theorem Sound.lookedUp (sound : Sound parser th)
    (stage : th.stage = .lookingUp ∨ th.stage = .purging) :
    th.stage.active = true ∧ ∀ p, th.parsed = some p → Cleared p th.log := by
  have checked := sound.checked
  cases stage with
  | inl stage => simpa [Checked, stage, Stage.active] using checked
  | inr stage => simpa [Checked, stage, Stage.active] using checked

theorem Sound.missed (sound : Sound parser th)
    (stage : th.stage = .lookingUp ∨ th.stage = .purging) :
    Sound parser (th.record (.lookup false) .missed) := by
  obtain ⟨active, cleared⟩ := sound.lookedUp stage
  apply sound.check active rfl
  intro p parsed
  exact (cleared p parsed).append _

theorem Sound.found (sound : Sound parser th) (stage : th.stage = .lookingUp) (a : Addr)
    (known : parser.parse th.request ≠ none) :
    Sound parser (th.record (.lookup true) (.found a)) := by
  obtain ⟨active, cleared⟩ := sound.lookedUp (.inl stage)
  obtain ⟨p, isParsed⟩ := Option.ne_none_iff_exists'.mp known
  have parsed : th.parsed = some p := (sound.parsed active).trans isParsed
  apply sound.record active
  · exact fun _ => sound.vetted active parsed (cleared p parsed)
  · exact ⟨p, isParsed, (cleared p parsed).append _⟩

theorem Sound.serve {maxBytes : Nat} {cache : Cache} {stray : Entry} {th' : Thread}
    (sound : Sound parser th) (served : th.serve maxBytes cache stray = some th') :
    Sound parser th' := by
  have checked := sound.checked
  unfold Thread.serve at served
  split at served
  · rename_i a stage
    cases served
    rw [Checked, stage] at checked
    exact sound.goto (by rw [stage]; rfl) checked
  · rename_i a size pos stage
    have active : th.stage.active = true := by rw [stage]; rfl
    rw [Checked, stage] at checked
    obtain ⟨p, isParsed, cleared⟩ := checked
    split at served
    · cases served
      apply sound.record active
      · exact fun _ => ⟨p, isParsed, cleared⟩
      · exact ⟨p, isParsed, cleared.append _⟩
    · cases served
      exact sound.goto active trivial
  · cases served

theorem Sound.emit (sound : Sound parser th) {e : Event} {events : List Event}
    {stored : Option (Bytes × Int)} (stage : th.stage = .answering (e :: events) stored) :
    Sound parser (th.record e (.answering events stored)) := by
  have checked := sound.checked
  rw [Checked, stage] at checked
  apply sound.record (by rw [stage]; rfl)
  · intro guarded
    exact checked (.inl ⟨e, by simp, guarded⟩)
  · intro pending
    obtain ⟨p, isParsed, cleared⟩ := checked (pending.imp_left fun ⟨e', member, guarded⟩ =>
      ⟨e', by simp [member], guarded⟩)
    exact ⟨p, isParsed, cleared.append _⟩

theorem act_sound {maxBytes : Nat} {cache cache' : Cache} {th' : Thread} {σ : Store}
    (refines : Refines cache σ) (keyed : σ.Keyed fun url => parser.parse url ≠ none)
    (sound : Sound parser th) (a : Act maxBytes)
    (acted : th.act parser cache a = some (cache', th')) :
    Sound parser th' ∧ ∃ σ', Refines cache' σ' ∧ σ'.Keyed fun url => parser.parse url ≠ none := by
  cases a with
  | receive request malloc =>
      simp only [Thread.act] at acted
      split at acted
      · rename_i fresh
        cases acted
        exact ⟨sound.receive fresh request malloc, σ, refines, keyed⟩
      · cases acted
  | authenticate allowed =>
      simp only [Thread.act] at acted
      split at acted
      · rename_i p stage parsed
        cases acted
        exact ⟨sound.authenticate stage parsed allowed, σ, refines, keyed⟩
      · cases acted
  | checkDomain blocked =>
      simp only [Thread.act] at acted
      split at acted
      · rename_i p stage parsed
        split at acted
        · rename_i noHost
          cases acted
          have auth : ∀ p, th.parsed = some p → .auth p.proxyAuthorization true ∈ th.log := by
            simpa [Checked, stage] using sound.checked
          refine ⟨sound.goto (by rw [stage]; rfl) ?_, σ, refines, keyed⟩
          intro p' same
          obtain rfl : p = p' := Option.some.inj (parsed.symm.trans same)
          refine ⟨auth p parsed, ?_⟩
          intro host isHost
          simp [noHost] at isHost
        · rename_i host isHost
          cases acted
          exact ⟨sound.checkDomain stage parsed isHost blocked, σ, refines, keyed⟩
      · cases acted
  | checkUrl blocked =>
      simp only [Thread.act] at acted
      split at acted
      · rename_i p stage parsed
        split at acted
        · rename_i noPath
          have isPath := parser.path_set ((sound.parsed (by rw [stage]; rfl)).symm.trans parsed)
          simp [noPath] at isPath
        · rename_i path isPath
          cases acted
          exact ⟨sound.checkUrl stage parsed isPath blocked, σ, refines, keyed⟩
      · cases acted
  | lookUp now =>
      simp only [Thread.act] at acted
      split at acted
      · rename_i stage
        obtain ⟨u, looked, result⟩ := refines.findLocked th.request now
        simp only [looked, Option.bind_eq_bind, Option.bind_some] at acted
        have keyed' := keyed.find th.request now
        split at acted
        · cases acted
          exact ⟨sound.missed (.inl stage), _, result, keyed'⟩
        · cases acted
          obtain ⟨active, cleared⟩ := sound.lookedUp (.inl stage)
          exact ⟨sound.goto active cleared, _, result, keyed'⟩
        · rename_i a hit
          cases acted
          exact ⟨sound.found stage a (keyed.hit hit), _, result, keyed'⟩
      · cases acted
  | purge =>
      simp only [Thread.act] at acted
      split at acted
      · rename_i stage
        obtain ⟨chain, rep⟩ := refines
        obtain ⟨u, purged, result⟩ := rep.purge th.request
        simp only [purged, Option.bind_eq_bind, Option.bind_some] at acted
        cases acted
        exact ⟨sound.missed (.inr stage), _, result, keyed.purge⟩
      · cases acted
  | serve stray =>
      obtain ⟨th', served, same⟩ := Option.map_eq_some_iff.mp acted
      cases same
      exact ⟨sound.serve served, σ, refines, keyed⟩
  | dispatch u =>
      simp only [Thread.act] at acted
      split at acted
      · rename_i missed
        cases acted
        exact ⟨sound.dispatch missed u, σ, refines, keyed⟩
      · cases acted
  | emit =>
      simp only [Thread.act] at acted
      split at acted
      · rename_i e events stored stage
        cases acted
        exact ⟨sound.emit stage, σ, refines, keyed⟩
      · rename_i stage
        cases acted
        exact ⟨sound.goto (by rw [stage]; rfl) trivial, σ, refines, keyed⟩
      · cases acted
  | store call =>
      simp only [Thread.act] at acted
      split at acted
      · rename_i data size stage
        have checked := sound.checked
        rw [Checked, stage] at checked
        obtain ⟨p, isParsed, -⟩ := checked (.inr (by simp))
        obtain ⟨u, ran, result⟩ := refines.add { call with data, size, url := th.request }
        simp only [ran, Option.bind_eq_bind, Option.bind_some] at acted
        cases acted
        refine ⟨sound.goto (by rw [stage]; rfl) trivial, _, result, keyed.add ?_⟩
        simp [isParsed]
      · cases acted

theorem sound_start : Sound parser .start where
  parsed active := by cases active
  mediated := by
    intro past e future split
    simp [Thread.start] at split
  checked := rfl

variable (parser) in
def Known (s : Server) : Prop :=
  (∃ σ, Refines s.cache σ ∧ σ.Keyed fun url => parser.parse url ≠ none) ∧
    ∀ t, Sound parser (s.thread t)

theorem known_step {maxBytes : Nat} {s s' : Server} {a : Nat × Act maxBytes}
    (known : Known parser s) (taken : s.step parser a = some s') : Known parser s' := by
  obtain ⟨⟨σ, refines, keyed⟩, sound⟩ := known
  obtain ⟨⟨cache, th⟩, acted, rfl⟩ := Option.map_eq_some_iff.mp taken
  obtain ⟨sound', keyed'⟩ := act_sound refines keyed (sound a.1) a.2 acted
  refine ⟨keyed', ?_⟩
  intro t
  by_cases same : t = a.1
  · subst same
    simpa using sound'
  · simpa [Function.update_of_ne same] using sound t

/-- Whatever the threads do, whatever a client gets from the cache or from an upstream and whatever
is connected to comes after the checks of that client's own request; a request that does not parse
is never found. -/
theorem mediated_of_run (parser : Parser) {maxBytes : Nat} {policy : CacheEvictionPolicy}
    {cacheDir : Bytes} {disk : Disk} {actions : List (Nat × Act maxBytes)} {s : Server}
    (complete : run (Server.step parser) (.init policy cacheDir disk) actions = some s) (t : Nat) :
    (∀ past e future, (s.thread t).log = past ++ e :: future → e.guarded = true →
      ∃ p, parser.parse (s.thread t).request = some p ∧
        .auth p.proxyAuthorization true ∈ past ∧
        (∀ host, p.host = some host → .domain host false ∈ past) ∧
        ∃ path, p.path = some path ∧ .url path false ∈ past) ∧
      (parser.parse (s.thread t).request = none → .lookup true ∉ (s.thread t).log) := by
  have init : Known parser (.init policy cacheDir disk) :=
    ⟨⟨_, Refines.init policy cacheDir disk, fun x member => by cases member⟩,
      fun _ => sound_start⟩
  have known : Known parser s :=
    run_invariant (Server.step parser) (fun _ _ _ => known_step) init complete
  have mediated := (known.2 t).mediated
  refine ⟨mediated, ?_⟩
  intro failed hit
  obtain ⟨past, future, split⟩ := List.append_of_mem hit
  obtain ⟨p, isParsed, -⟩ := mediated past _ future split rfl
  simp [failed] at isParsed

def sampleRequest : Bytes :=
  ascii "GET http://a/ HTTP/1.1\r\nProxy-Authorization: Basic dTpw\r\n\r\n"

def sampleParser : Parser := .parsedRequest 0 .null

def sampleUpstream : Upstream 100 where
  addressFilter := ⟨false, [], []⟩
  contentFilter := ⟨false, [], []⟩
  addresses := some [⟨.inet 0x0a000001 80, true, true⟩]
  exchange := ⟨true, true, true,
    [⟨⟨ascii "HTTP/1.1 200 OK\r\n\r\nHi", by decide, by decide⟩, true, some 21⟩], .closed⟩
  handshakes := true
  tunnel := []

def untilLookup (now : Int) : List (Act 100) :=
  [.receive ⟨[sampleRequest], by decide, by decide⟩ true, .authenticate true, .checkDomain false,
    .checkUrl false, .lookUp now]

def fetch : List (Act 100) :=
  untilLookup 5 ++ ([.dispatch sampleUpstream, .emit, .emit,
    .store { sampleCall "" "" with maxElementSize := 1000, maxCacheSize := 1000 }] : List _)

def refetch : List (Act 100) :=
  let stray : Entry := ⟨[], false, none, .memory [], 0, 0, 0, 0⟩
  untilLookup 6 ++ ([.serve stray, .serve stray] : List _)

theorem mediated_of_run_hit :
    ∃ s, run (Server.step sampleParser) (.init .lru [] .empty)
        (fetch.map (0, ·) ++ refetch.map (1, ·)) = some s ∧
      .cached (ascii "HTTP/1.1 200 OK\r\n\r\nHi") ∈ (s.thread 1).log ∧
      (∀ past e future, (s.thread 1).log = past ++ e :: future → e.guarded = true →
        ∃ p, sampleParser.parse (s.thread 1).request = some p ∧
          .auth p.proxyAuthorization true ∈ past ∧
          (∀ host, p.host = some host → .domain host false ∈ past) ∧
          ∃ path, p.path = some path ∧ .url path false ∈ past) ∧
      (sampleParser.parse (s.thread 1).request = none → .lookup true ∉ (s.thread 1).log) := by
  have served : ((run (Server.step sampleParser) (.init .lru [] .empty)
      (fetch.map (0, ·) ++ refetch.map (1, ·))).map fun s => decide
        (.cached (ascii "HTTP/1.1 200 OK\r\n\r\nHi") ∈ (s.thread 1).log)) = some true := by
    decide +kernel
  obtain ⟨s, complete, served⟩ := Option.map_eq_some_iff.mp served
  exact ⟨s, complete, by simpa using served, mediated_of_run sampleParser complete 1⟩

end ProxyServer
