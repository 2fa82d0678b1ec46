import ProxyServer.Cache.Entries
import ProxyServer.Lib.History
import ProxyServer.Request.Mediation

namespace ProxyServer
open Lib

def Event.cachedBytes : Event → Bytes
  | .cached bytes => bytes
  | _ => []

variable {maxBytes : Nat}

namespace Thread

def cached (th : Thread) : Bytes := th.log.flatMap Event.cachedBytes

@[simp] theorem cached_goto (th : Thread) (stage : Stage) : (th.goto stage).cached = th.cached := rfl

@[simp] theorem cached_record (th : Thread) (e : Event) (stage : Stage) :
    (th.record e stage).cached = th.cached ++ e.cachedBytes := by
  simp [cached, record]

end Thread

def Fetched (past : List (Nat × Act maxBytes)) (thread : Nat → Thread) (request data : Bytes)
    (size : Int) : Prop :=
  ∃ j u, (j, .dispatch u) ∈ past ∧ (thread j).request = request ∧
    (thread j).dispatch u = .answering u.getEvents (some (data, size)) ∧
    u.handled.stored = some (data, size)

section Carries

-- What has been fetched, as a request, the response to it and its `SIZE`.
variable (fetched : Bytes → Bytes → Int → Prop)

def SourcedItem (x : Item) : Prop :=
  ∃ data size, fetched x.entry.url data size ∧ x.entry.length = size ∧
    ∀ bytes, x.entry.data = .memory bytes → bytes = data.take size.toNat ++ [0]

def Carries (σ : Store) (th : Thread) : Prop :=
  match th.stage with
  | .found a => th.cached = [] ∧ ∃ f, σ.Keeps a f ∧ f.entry.url = th.request
  | .serving a size pos =>
      ∃ data f, fetched th.request data size ∧ σ.Keeps a f ∧
        f.entry.data = .memory (data.take size.toNat ++ [0]) ∧ pos ≤ size.toNat ∧
        th.cached = (data.take size.toNat).take pos
  | .answering events stored =>
      th.cached = [] ∧ (∀ e ∈ events, e.cachedBytes = []) ∧
        ∀ data size, stored = some (data, size) → fetched th.request data size
  | .finished =>
      th.cached = [] ∨ ∃ data size, fetched th.request data size ∧
        th.cached = data.take size.toNat
  | _ => th.cached = []

end Carries

structure Traced (past : List (Nat × Act maxBytes)) (s : Server) (σ : Store) : Prop where
  refines : Refines s.cache σ
  begun : ∀ j u, (j, .dispatch u) ∈ past → (s.thread j).stage ≠ .receiving
  sourced : ∀ x ∈ σ.items, SourcedItem (Fetched past s.thread) x
  carries : ∀ t, Carries (Fetched past s.thread) σ (s.thread t)

def Stage.held : Stage → Option Addr
  | .found a => some a
  | .serving a _ _ => some a
  | _ => none

def Entry.inMemory (e : Entry) : Bool :=
  match e.data with
  | .memory _ => true
  | .mapped _ => false

/-- An entry is in memory and has not been freed when it is read. -/
def ReadsLive (s : Server) : Nat × Act maxBytes → Prop
  | (t, .serve _) => (s.thread t).stage.held.all fun a => (s.cache.entry a).any Entry.inMemory
  | _ => True

instance (s : Server) (a : Nat × Act maxBytes) : Decidable (ReadsLive s a) := by
  obtain ⟨t, act⟩ := a
  cases act <;> unfold ReadsLive <;> infer_instance

theorem live_of_held {cache : Cache} {stage : Stage} {a : Addr}
    (live : (stage.held.all fun a => (cache.entry a).any Entry.inMemory) = true)
    (held : stage.held = some a) :
    ∃ e bytes, cache.entry a = some e ∧ e.data = .memory bytes := by
  rw [held, Option.all_some, Option.any_eq_true] at live
  obtain ⟨e, read, inMemory⟩ := live
  unfold Entry.inMemory at inMemory
  split at inMemory
  · exact ⟨e, _, read, ‹_›⟩
  · cases inMemory

/-! ## What a step leaves -/

namespace Thread

variable {parser : Parser} {cache cache' : Cache} {th th' : Thread}

structure Continues (th th' : Thread) : Prop where
  received : th'.received = th.received
  parsed : th'.parsed = th.parsed
  begun : th'.stage ≠ .receiving

theorem Continues.request (continues : Continues th th') : th'.request = th.request := by
  rw [Thread.request, continues.received, Thread.request]

theorem Continues.dispatch (continues : Continues th th') (u : Upstream maxBytes) :
    th'.dispatch u = th.dispatch u := by
  rw [Thread.dispatch, continues.received, continues.parsed, Thread.dispatch]

theorem continues_goto {stage : Stage} (begun : stage ≠ .receiving) :
    Continues th (th.goto stage) := ⟨rfl, rfl, begun⟩

theorem continues_record (e : Event) {stage : Stage} (begun : stage ≠ .receiving) :
    Continues th (th.record e stage) := ⟨rfl, rfl, begun⟩

theorem dispatch_cases (th : Thread) (u : Upstream maxBytes) :
    th.dispatch u = .finished ∨ ∃ events stored, th.dispatch u = .answering events stored := by
  unfold Thread.dispatch
  cases th.parsed with
  | none =>
      dsimp only
      split
      · exact Or.inl rfl
      · exact Or.inr ⟨_, _, rfl⟩
  | some p =>
      dsimp only
      split_ifs <;> exact Or.inr ⟨_, _, rfl⟩

theorem dispatch_begun (u : Upstream maxBytes) : th.dispatch u ≠ .receiving := by
  rcases th.dispatch_cases u with next | ⟨events, stored, next⟩ <;> simp [next]

theorem serve_continues {stray : Entry} (served : th.serve maxBytes cache stray = some th') :
    Continues th th' := by
  unfold Thread.serve at served
  split at served
  · cases served
    exact continues_goto (by simp)
  · split at served
    · cases served
      exact continues_record _ (by simp)
    · cases served
      exact continues_goto (by simp)
  · cases served

theorem act_continues {a : Act maxBytes} (begun : th.stage ≠ .receiving)
    (acted : th.act parser cache a = some (cache', th')) : Continues th th' := by
  cases a with
  | receive request malloc =>
      simp only [Thread.act] at acted
      cases acted
  | authenticate allowed =>
      simp only [Thread.act] at acted
      split at acted
      · cases acted
        exact continues_record _ (by split <;> simp)
      · cases acted
  | checkDomain blocked =>
      simp only [Thread.act] at acted
      split at acted
      · split at acted
        · cases acted
          exact continues_goto (by simp)
        · cases acted
          exact continues_record _ (by split <;> simp)
      · cases acted
  | checkUrl blocked =>
      simp only [Thread.act] at acted
      split at acted
      · split at acted
        · cases acted
          exact continues_goto (by simp)
        · cases acted
          exact continues_record _ (by split <;> simp)
      · cases acted
  | lookUp now =>
      simp only [Thread.act] at acted
      split at acted
      · obtain ⟨⟨found, result⟩, -, acted⟩ := Option.bind_eq_some_iff.mp acted
        dsimp only at acted
        split at acted <;> cases acted
        · exact continues_record _ (by simp)
        · exact continues_goto (by simp)
        · exact continues_record _ (by simp)
      · cases acted
  | purge =>
      simp only [Thread.act] at acted
      split at acted
      · obtain ⟨purged, -, acted⟩ := Option.bind_eq_some_iff.mp acted
        cases acted
        exact continues_record _ (by simp)
      · cases acted
  | serve stray =>
      obtain ⟨th', served, same⟩ := Option.map_eq_some_iff.mp acted
      cases same
      exact serve_continues served
  | dispatch u =>
      simp only [Thread.act] at acted
      split at acted
      · cases acted
        exact continues_goto (dispatch_begun u)
      · cases acted
  | emit =>
      simp only [Thread.act] at acted
      split at acted
      · cases acted
        exact continues_record _ (by simp)
      · cases acted
        exact continues_goto (by simp)
      · cases acted
  | store call =>
      simp only [Thread.act] at acted
      split at acted
      · obtain ⟨⟨added, result⟩, -, acted⟩ := Option.bind_eq_some_iff.mp acted
        cases acted
        exact continues_goto (by simp)
      · cases acted

end Thread

structure Store.Succeeds (σ τ : Store) (fresh : Item → Prop) : Prop where
  keeps : ∀ {a f}, σ.Keeps a f → τ.Keeps a f
  items : ∀ x ∈ τ.items, (∃ y ∈ σ.items, y.fixed = x.fixed) ∨ fresh x

namespace Store

variable (σ : Store) (fresh : Item → Prop)

theorem succeeds_refl : σ.Succeeds σ fresh := ⟨id, fun x member => Or.inl ⟨x, member, rfl⟩⟩

theorem find_within (url : Bytes) (now : Int) : Within (σ.find url now).1 σ := by
  unfold find
  cases σ.newest url with
  | none => exact List.Subperm.refl _
  | some x =>
      dsimp only
      split
      · exact List.Subperm.refl _
      · exact σ.use_within x.addr now

theorem find_brk (url : Bytes) (now : Int) : (σ.find url now).1.brk = σ.brk := by
  unfold find
  cases σ.newest url with
  | none => rfl
  | some x =>
      dsimp only
      split
      · rfl
      · unfold use
        split <;> rfl

theorem find_succeeds (url : Bytes) (now : Int) : σ.Succeeds (σ.find url now).1 fresh where
  keeps := by
    rintro a f ⟨below, same⟩
    refine ⟨(σ.find_brk url now).symm ▸ below, fun x member here => ?_⟩
    obtain ⟨y, inside, fixed⟩ := (σ.find_within url now).mem member
    have addr : y.fixed.addr = x.fixed.addr := by rw [fixed]
    rw [← fixed]
    exact same y inside (addr.trans here)
  items _ member := Or.inl ((σ.find_within url now).mem member)

theorem purge_succeeds (url : Bytes) : σ.Succeeds (σ.purge url) fresh where
  keeps keeps := keeps.exec (.purge url)
  items _ member := Or.inl ((σ.purge_within url).mem member)

theorem add_succeeds (c : Cache.AddCall) :
    σ.Succeeds (σ.add c).1 fun x => x.entry.url = c.url ∧ x.entry.length = c.size ∧
      ∀ bytes, x.entry.data = .memory bytes → bytes = c.data.take c.size.toNat ++ [0] where
  keeps keeps := keeps.exec (.add c)
  items := by
    intro x member
    rcases σ.add_cases c with ⟨-, within, -⟩ | ⟨-, -, -, -, path, file, e, made, items⟩
    · exact Or.inl (within.mem member)
    · rw [items, List.mem_append, List.mem_singleton] at member
      rcases member with kept | rfl
      · exact Or.inl ((σ.evict_within _ _).mem kept)
      · obtain ⟨url, length, -⟩ := Cache.AddCall.entry_shape made
        refine Or.inr ⟨url, length, fun bytes inMemory => ?_⟩
        cases file with
        | none =>
            simp only [Cache.AddCall.entry, Option.ite_none_right_eq_some,
              Option.some.injEq] at made
            simpa [← made.2] using inMemory.symm
        | some file =>
            simp only [Cache.AddCall.entry, Option.some.injEq] at made
            simp [← made] at inMemory

variable {σ}

theorem keeps_of_hit {url : Bytes} {now : Int} {a : Addr} (hit : (σ.find url now).2 = .hit a) :
    ∃ f, (σ.find url now).1.Keeps a f ∧ f.entry.url = url := by
  have found : ∃ x ∈ σ.items, x.addr = a ∧ x.entry.url = url := by
    unfold find at hit
    cases newest : σ.newest url with
    | none => simp [newest] at hit
    | some x =>
        rw [newest] at hit
        dsimp only at hit
        split at hit
        · cases hit
        · cases hit
          obtain ⟨member, isUrl⟩ := σ.newest_mem newest
          exact ⟨x, member, rfl, isUrl⟩
  obtain ⟨x, member, rfl, isUrl⟩ := found
  refine ⟨x.fixed, (σ.find_succeeds (fun _ => True) url now).keeps ?_, isUrl⟩
  refine ⟨σ.allocated x member, fun y inside here => ?_⟩
  have same : y = x := by
    obtain ⟨b, e⟩ := y
    obtain ⟨c, g⟩ := x
    obtain rfl : b = c := here
    rw [σ.entry_unique inside member]
  rw [same]

end Store

/-! ## One step -/

section Step

variable {fetched more : Bytes → Bytes → Int → Prop} {σ τ : Store} {parser : Parser}
  {cache cache' : Cache} {th th' : Thread}

theorem SourcedItem.mono (grows : ∀ r d n, fetched r d n → more r d n) {x y : Item}
    (same : y.fixed = x.fixed) (sourced : SourcedItem fetched y) : SourcedItem more x := by
  obtain ⟨data, size, was, length, inMemory⟩ := sourced
  simp only [Item.fixed, Item.mk.injEq, Entry.mk.injEq] at same
  obtain ⟨-, url, -, -, payload, isLength, -⟩ := same
  exact ⟨data, size, grows _ _ _ (url ▸ was), isLength ▸ length, payload ▸ inMemory⟩

theorem Carries.mono (grows : ∀ r d n, fetched r d n → more r d n)
    (keeps : ∀ {a f}, σ.Keeps a f → τ.Keeps a f) (carries : Carries fetched σ th) :
    Carries more τ th := by
  unfold Carries at carries ⊢
  split at carries
  · obtain ⟨none, f, kept, url⟩ := carries
    exact ⟨none, f, keeps kept, url⟩
  · obtain ⟨data, f, was, kept, payload, inside, sent⟩ := carries
    exact ⟨data, f, grows _ _ _ was, keeps kept, payload, inside, sent⟩
  · obtain ⟨none, own, stored⟩ := carries
    exact ⟨none, own, fun data size isStored => grows _ _ _ (stored data size isStored)⟩
  · refine carries.imp_right ?_
    rintro ⟨data, size, was, sent⟩
    exact ⟨data, size, grows _ _ _ was, sent⟩
  · exact carries

theorem dispatch_events {u : Upstream maxBytes} {events : List Event}
    {stored : Option (Bytes × Int)} (answers : th.dispatch u = .answering events stored) :
    (∀ e ∈ events, e.cachedBytes = []) ∧
      ∀ data size, stored = some (data, size) →
        events = u.getEvents ∧ u.handled.stored = some (data, size) := by
  have connects (xs : List SockAddr) : ∀ e ∈ xs.map Event.connect, e.cachedBytes = [] := by
    intro e member
    obtain ⟨sa, -, rfl⟩ := List.mem_map.mp member
    rfl
  have reply (status : Nat) : ∀ e ∈ [Event.reply status], e.cachedBytes = [] := by
    intro e member
    obtain rfl := List.mem_singleton.mp member
    rfl
  have get : ∀ e ∈ u.getEvents, e.cachedBytes = [] := by
    intro e member
    rcases List.mem_append.mp member with relayed | failed
    · rcases List.mem_append.mp relayed with connected | sent
      · exact connects _ e connected
      · obtain ⟨c, -, rfl⟩ := List.mem_map.mp sent
        cases c <;> rfl
    · split at failed
      · exact reply 500 e failed
      · cases failed
  have connect : ∀ e ∈ u.connectEvents, e.cachedBytes = [] := by
    intro e member
    rcases List.mem_append.mp member with connected | after
    · exact connects _ e connected
    · split at after
      · rcases List.mem_cons.mp after with rfl | tunnelled
        · rfl
        · split at tunnelled
          · obtain ⟨step, -, inside⟩ := List.mem_flatMap.mp tunnelled
            cases step with
            | relay bytes =>
                obtain rfl := List.mem_singleton.mp inside
                rfl
            | stream port calls => exact connects _ e inside
          · exact reply 500 e tunnelled
      · exact reply 500 e after
  unfold Thread.dispatch at answers
  cases isParsed : th.parsed with
  | none =>
      rw [isParsed] at answers
      dsimp only at answers
      split at answers
      · cases answers
      · cases answers
        exact ⟨reply 400, by simp⟩
  | some p =>
      rw [isParsed] at answers
      dsimp only at answers
      split_ifs at answers <;> cases answers
      · exact ⟨get, fun data size stored => ⟨rfl, stored⟩⟩
      · exact ⟨reply 500, by simp⟩
      · exact ⟨connect, by simp⟩
      · exact ⟨reply 501, by simp⟩

theorem stored_size {u : Upstream maxBytes} {data : Bytes} {size : Int}
    (stored : u.handled.stored = some (data, size)) : size.toNat ≤ data.length := by
  have length : size = toInt data.length := by
    unfold Upstream.handled handleRequest at stored
    dsimp only at stored
    split_ifs at stored
    cases stored
    rfl
  rw [length, toInt, Int.bmod_def]
  split <;> omega

def Stores (th : Thread) (x : Item) : Prop :=
  ∃ data size, th.stage = .answering [] (some (data, size)) ∧ x.entry.url = th.request ∧
    x.entry.length = size ∧ ∀ bytes, x.entry.data = .memory bytes →
      bytes = data.take size.toNat ++ [0]

theorem dispatch_found {u : Upstream maxBytes} {b : Addr} : th.dispatch u ≠ .found b := by
  rcases th.dispatch_cases u with next | ⟨events, stored, next⟩ <;> simp [next]

theorem receive_found {request : ClientRequest maxBytes} {malloc : Bool} {b : Addr} :
    (th.receive parser request malloc).stage ≠ .found b := by
  unfold Thread.receive
  cases receiveRequest maxBytes request.segments with
  | none => simp [Thread.goto]
  | some received =>
      dsimp only
      split
      · simp [Thread.goto]
      · split <;> simp

theorem serve_found {stray : Entry} (served : th.serve maxBytes cache stray = some th') {b : Addr} :
    th'.stage ≠ .found b := by
  unfold Thread.serve at served
  split at served
  · cases served
    simp [Thread.goto]
  · split at served <;> cases served <;> simp [Thread.goto, Thread.record]
  · cases served

theorem act_succeeds {a : Act maxBytes} (refines : Refines cache σ)
    (acted : th.act parser cache a = some (cache', th')) :
    ∃ τ, Refines cache' τ ∧ σ.Succeeds τ (Stores th) ∧
      ∀ b, th'.stage = .found b → ∃ f, τ.Keeps b f ∧ f.entry.url = th.request := by
  have same (th'' : Thread) (kept : (cache, th'') = (cache', th'))
      (other : ∀ b, th''.stage ≠ .found b) :
      ∃ τ, Refines cache' τ ∧ σ.Succeeds τ (Stores th) ∧
        ∀ b, th'.stage = .found b → ∃ f, τ.Keeps b f ∧ f.entry.url = th.request := by
    cases kept
    exact ⟨σ, refines, σ.succeeds_refl _, fun b isFound => absurd isFound (other b)⟩
  cases a with
  | receive request malloc =>
      simp only [Thread.act] at acted
      split at acted
      · exact same _ (Option.some.inj acted) fun b => receive_found
      · cases acted
  | authenticate allowed =>
      simp only [Thread.act] at acted
      split at acted
      · exact same _ (Option.some.inj acted) (by cases allowed <;> simp [Thread.record])
      · cases acted
  | checkDomain blocked =>
      simp only [Thread.act] at acted
      split at acted
      · split at acted
        · exact same _ (Option.some.inj acted) (by simp [Thread.goto])
        · exact same _ (Option.some.inj acted) (by cases blocked <;> simp [Thread.record])
      · cases acted
  | checkUrl blocked =>
      simp only [Thread.act] at acted
      split at acted
      · split at acted
        · exact same _ (Option.some.inj acted) (by simp [Thread.goto])
        · exact same _ (Option.some.inj acted) (by cases blocked <;> simp [Thread.record])
      · cases acted
  | lookUp now =>
      simp only [Thread.act] at acted
      split at acted
      · obtain ⟨u, looked, result⟩ := refines.findLocked th.request now
        simp only [looked, Option.bind_eq_bind, Option.bind_some] at acted
        refine ⟨_, ?_, σ.find_succeeds _ th.request now, ?_⟩
        · split at acted <;> cases acted <;> exact result
        · intro b isFound
          split at acted
          · cases acted
            simp [Thread.record] at isFound
          · cases acted
            simp [Thread.goto] at isFound
          · rename_i a hit
            cases acted
            obtain rfl : a = b := by simpa [Thread.record] using isFound
            exact Store.keeps_of_hit hit
      · cases acted
  | purge =>
      simp only [Thread.act] at acted
      split at acted
      · obtain ⟨chain, rep⟩ := refines
        obtain ⟨u, purged, result⟩ := rep.purge th.request
        simp only [purged, Option.bind_eq_bind, Option.bind_some] at acted
        cases acted
        exact ⟨_, result, σ.purge_succeeds _ _, by simp [Thread.record]⟩
      · cases acted
  | serve stray =>
      obtain ⟨th'', served, kept⟩ := Option.map_eq_some_iff.mp acted
      exact same th'' kept fun b => serve_found served
  | dispatch u =>
      simp only [Thread.act] at acted
      split at acted
      · exact same _ (Option.some.inj acted) fun b => dispatch_found
      · cases acted
  | emit =>
      simp only [Thread.act] at acted
      split at acted
      · exact same _ (Option.some.inj acted) (by simp [Thread.record])
      · exact same _ (Option.some.inj acted) (by simp [Thread.goto])
      · cases acted
  | store call =>
      simp only [Thread.act] at acted
      split at acted
      · rename_i data size stage
        obtain ⟨u, ran, result⟩ := refines.add { call with data, size, url := th.request }
        simp only [ran, Option.bind_eq_bind, Option.bind_some] at acted
        cases acted
        have succeeds := σ.add_succeeds { call with data, size, url := th.request }
        refine ⟨_, result, ⟨succeeds.keeps, fun x member => ?_⟩, by simp [Thread.goto]⟩
        refine (succeeds.items x member).imp_right ?_
        rintro ⟨url, length, payload⟩
        exact ⟨data, size, stage, url, length, payload⟩
      · cases acted

theorem take_to_next (bytes : Bytes) {pos next : Nat} (le : pos ≤ next) :
    bytes.take pos ++ (bytes.take next).drop pos = bytes.take next := by
  have front : (bytes.take next).take pos = bytes.take pos := by
    rw [List.take_take, min_eq_left le]
  rw [← front, List.take_append_drop]

theorem carries_serve {stray : Entry} (carries : Carries fetched σ th)
    (sourced : ∀ x ∈ σ.items, SourcedItem fetched x) (refines : Refines cache σ)
    (sized : ∀ r d n, fetched r d n → n.toNat ≤ d.length)
    (live : (th.stage.held.all fun a => (cache.entry a).any Entry.inMemory) = true)
    (served : th.serve maxBytes cache stray = some th') : Carries fetched σ th' := by
  unfold Thread.serve at served
  split at served
  · rename_i a stage
    cases served
    obtain ⟨e, bytes, read, inMemory⟩ := live_of_held live (by rw [stage]; rfl)
    rw [Carries, stage] at carries
    obtain ⟨none, f, keeps, url⟩ := carries
    have member := (refines.choose_spec.entries a e).mp read
    obtain rfl : Item.fixed ⟨a, e⟩ = f := keeps.2 _ member rfl
    obtain ⟨data, size, was, length, payload⟩ := sourced _ member
    rw [read]
    refine ⟨data, _, ?_, keeps, ?_, Nat.zero_le _, ?_⟩
    · change fetched th.request data e.length
      rw [show e.length = size from length, ← url]
      exact was
    · change e.data = .memory (data.take e.length.toNat ++ [0])
      rw [show e.length = size from length, inMemory, payload bytes inMemory]
    · simpa using none
  · rename_i a size pos stage
    obtain ⟨e, bytes, read, -⟩ := live_of_held live (by rw [stage]; rfl)
    rw [Carries, stage] at carries
    obtain ⟨data, f, was, keeps, payload, inside, sent⟩ := carries
    have member := (refines.choose_spec.entries a e).mp read
    obtain rfl : Item.fixed ⟨a, e⟩ = f := keeps.2 _ member rfl
    have whole : (data.take size.toNat).length = size.toNat :=
      List.length_take_of_le (sized _ _ _ was)
    split at served
    · cases served
      refine ⟨data, _, was, keeps, payload, Nat.min_le_right _ _, ?_⟩
      have payload' : e.data = .memory (data.take size.toNat ++ [0]) := payload
      rw [Thread.cached_record, sent, read, Option.getD_some, payload']
      change _ ++ ((data.take size.toNat ++ [0]).take (min (pos + maxBytes) size.toNat)).drop pos = _
      rw [List.take_append_of_le_length (by omega)]
      exact take_to_next _ (by omega)
    · cases served
      refine Or.inr ⟨data, size, was, ?_⟩
      rw [Thread.cached_goto, sent, List.take_of_length_le]
      omega
  · cases served

def Stage.apart : Stage → Bool
  | .found _ | .serving _ _ _ | .answering _ _ => false
  | _ => true

theorem carries_nil (apart : th.stage.apart = true) (empty : th.cached = []) :
    Carries fetched σ th := by
  unfold Carries
  split
  · rename_i stage
    simp [stage, Stage.apart] at apart
  · rename_i stage
    simp [stage, Stage.apart] at apart
  · rename_i stage
    simp [stage, Stage.apart] at apart
  · exact Or.inl empty
  · exact empty

theorem carries_reply (e : Event) (own : e.cachedBytes = []) (empty : th.cached = [])
    (status : Nat) : Carries fetched σ (th.record e (.answering [.reply status] none)) := by
  refine ⟨by rw [Thread.cached_record, own, empty, List.append_nil], ?_, by simp⟩
  intro e' member
  obtain rfl := List.mem_singleton.mp member
  rfl

theorem receive_apart (request : ClientRequest maxBytes) (malloc : Bool) :
    (th.receive parser request malloc).stage.apart = true ∧
      (th.receive parser request malloc).log = th.log := by
  unfold Thread.receive
  cases receiveRequest maxBytes request.segments with
  | none => exact ⟨rfl, rfl⟩
  | some received =>
      dsimp only
      split
      · exact ⟨rfl, rfl⟩
      · split <;> exact ⟨rfl, rfl⟩

theorem act_carries {a : Act maxBytes} (carries : Carries fetched σ th)
    (sourced : ∀ x ∈ σ.items, SourcedItem fetched x) (refines : Refines cache σ)
    (sized : ∀ r d n, fetched r d n → n.toNat ≤ d.length)
    (live : ∀ stray, a = .serve stray →
      (th.stage.held.all fun a => (cache.entry a).any Entry.inMemory) = true)
    (fetches : ∀ u, a = .dispatch u → ∀ data size,
      th.dispatch u = .answering u.getEvents (some (data, size)) →
        u.handled.stored = some (data, size) → fetched th.request data size)
    (acted : th.act parser cache a = some (cache', th'))
    (succeeds : σ.Succeeds τ (Stores th))
    (found : ∀ b, th'.stage = .found b → ∃ f, τ.Keeps b f ∧ f.entry.url = th.request) :
    Carries fetched τ th' := by
  have checked (e : Event) (stage : Stage) (empty : th.cached = []) (own : e.cachedBytes = [])
      (apart : stage.apart = true) : Carries fetched τ (th.record e stage) :=
    carries_nil apart (by rw [Thread.cached_record, own, empty, List.append_nil])
  have passed (stage : Stage) (empty : th.cached = []) (apart : stage.apart = true) :
      Carries fetched τ (th.goto stage) := carries_nil apart empty
  cases a with
  | receive request malloc =>
      simp only [Thread.act] at acted
      split at acted
      · rename_i stage
        have empty : th.cached = [] := by simpa [Carries, stage] using carries
        cases acted
        obtain ⟨apart, log⟩ := receive_apart request malloc
        exact carries_nil apart (by rw [Thread.cached, log]; exact empty)
      · cases acted
  | authenticate allowed =>
      simp only [Thread.act] at acted
      split at acted
      · rename_i p stage parsed
        have empty : th.cached = [] := by simpa [Carries, stage] using carries
        cases acted
        cases allowed with
        | true => exact checked _ _ empty rfl rfl
        | false => exact carries_reply _ rfl empty 407
      · cases acted
  | checkDomain blocked =>
      simp only [Thread.act] at acted
      split at acted
      · rename_i p stage parsed
        have empty : th.cached = [] := by simpa [Carries, stage] using carries
        split at acted
        · cases acted
          exact passed _ empty rfl
        · cases acted
          cases blocked with
          | true => exact carries_reply _ rfl empty 403
          | false => exact checked _ _ empty rfl rfl
      · cases acted
  | checkUrl blocked =>
      simp only [Thread.act] at acted
      split at acted
      · rename_i p stage parsed
        have empty : th.cached = [] := by simpa [Carries, stage] using carries
        split at acted
        · cases acted
          exact passed _ empty rfl
        · cases acted
          cases blocked with
          | true => exact carries_reply _ rfl empty 403
          | false => exact checked _ _ empty rfl rfl
      · cases acted
  | lookUp now =>
      simp only [Thread.act] at acted
      split at acted
      · rename_i stage
        have empty : th.cached = [] := by simpa [Carries, stage] using carries
        obtain ⟨u, looked, -⟩ := refines.findLocked th.request now
        simp only [looked, Option.bind_eq_bind, Option.bind_some] at acted
        split at acted
        · cases acted
          exact checked _ _ empty rfl rfl
        · cases acted
          exact passed _ empty rfl
        · cases acted
          obtain ⟨f, keeps, url⟩ := found _ rfl
          exact ⟨by simp [empty, Event.cachedBytes], f, keeps, url⟩
      · cases acted
  | purge =>
      simp only [Thread.act] at acted
      split at acted
      · rename_i stage
        have empty : th.cached = [] := by simpa [Carries, stage] using carries
        obtain ⟨purged, -, acted⟩ := Option.bind_eq_some_iff.mp acted
        cases acted
        exact checked _ _ empty rfl rfl
      · cases acted
  | serve stray =>
      obtain ⟨th'', served, same⟩ := Option.map_eq_some_iff.mp acted
      cases same
      exact (carries_serve carries sourced refines sized (live stray rfl) served).mono
        (fun _ _ _ => id) succeeds.keeps
  | dispatch u =>
      simp only [Thread.act] at acted
      split at acted
      · rename_i stage
        have empty : th.cached = [] := by simpa [Carries, stage] using carries
        cases acted
        rcases th.dispatch_cases u with next | ⟨events, stored, next⟩
        · exact passed _ empty (next ▸ rfl)
        · obtain ⟨own, isGet⟩ := dispatch_events next
          rw [next]
          refine ⟨empty, own, fun data size isStored => ?_⟩
          obtain ⟨rfl, kept⟩ := isGet data size isStored
          exact fetches u rfl data size (isStored ▸ next) kept
      · cases acted
  | emit =>
      simp only [Thread.act] at acted
      split at acted
      · rename_i e events stored stage
        rw [Carries, stage] at carries
        obtain ⟨empty, own, kept⟩ := carries
        cases acted
        refine ⟨?_, fun e' member => own e' (by simp [member]), kept⟩
        rw [Thread.cached_record, empty, own e (by simp), List.append_nil]
      · rename_i stage
        rw [Carries, stage] at carries
        cases acted
        exact passed _ carries.1 rfl
      · cases acted
  | store call =>
      simp only [Thread.act] at acted
      split at acted
      · rename_i data size stage
        rw [Carries, stage] at carries
        obtain ⟨added, -, acted⟩ := Option.bind_eq_some_iff.mp acted
        cases acted
        exact passed _ carries.1 rfl
      · cases acted

end Step

/-! ## All runs -/

variable {parser : Parser} {past : List (Nat × Act maxBytes)} {s t : Server} {σ : Store}
  {a : Nat × Act maxBytes}

theorem fetched_sized {thread : Nat → Thread} (r d : Bytes) (n : Int)
    (was : Fetched past thread r d n) : n.toNat ≤ d.length := by
  obtain ⟨j, u, -, -, -, stored⟩ := was
  exact stored_size stored

theorem fetched_later (begun : ∀ j u, (j, .dispatch u) ∈ past → (s.thread j).stage ≠ .receiving)
    (taken : s.step parser a = some t) (r d : Bytes) (n : Int)
    (was : Fetched past s.thread r d n) : Fetched (past ++ [a]) t.thread r d n := by
  obtain ⟨⟨cache, th⟩, acted, rfl⟩ := Option.map_eq_some_iff.mp taken
  obtain ⟨j, u, member, request, answers, stored⟩ := was
  have continues : Thread.Continues (s.thread j) (Function.update s.thread a.1 th j) := by
    by_cases here : j = a.1
    · subst here
      rw [Function.update_self]
      exact Thread.act_continues (begun _ u member) acted
    · rw [Function.update_of_ne here]
      exact ⟨rfl, rfl, begun j u member⟩
  exact ⟨j, u, List.mem_append_left _ member, continues.request.trans request,
    (continues.dispatch u).trans answers, stored⟩

theorem act_dispatch {cache cache' : Cache} {th th' : Thread} {u : Upstream maxBytes}
    (acted : th.act parser cache (.dispatch u) = some (cache', th')) :
    th.stage = .missed ∧ th' = th.goto (th.dispatch u) := by
  simp only [Thread.act] at acted
  split at acted
  · cases acted
    exact ⟨‹_›, rfl⟩
  · cases acted

theorem traced_step (traced : ∃ σ, Traced past s σ) (live : ReadsLive s a)
    (taken : s.step parser a = some t) : ∃ σ, Traced (past ++ [a]) t σ := by
  obtain ⟨σ, refines, begun, sourced, carries⟩ := traced
  have later := fetched_later begun taken
  obtain ⟨⟨cache, th⟩, acted, rfl⟩ := Option.map_eq_some_iff.mp taken
  obtain ⟨τ, refines', succeeds, found⟩ := act_succeeds refines acted
  have dispatched (u : Upstream maxBytes) (isDispatch : a.2 = .dispatch u) :
      Thread.Continues (s.thread a.1) th := by
    rw [isDispatch] at acted
    exact Thread.act_continues (by simp [(act_dispatch acted).1]) acted
  have fetches (u : Upstream maxBytes) (isDispatch : a.2 = .dispatch u) (data : Bytes) (size : Int)
      (answers : (s.thread a.1).dispatch u = .answering u.getEvents (some (data, size)))
      (stored : u.handled.stored = some (data, size)) :
      Fetched (past ++ [a]) (Function.update s.thread a.1 th) (s.thread a.1).request data size := by
    have continues := dispatched u isDispatch
    refine ⟨a.1, u, by simp [← isDispatch], ?_, ?_, stored⟩
    · rw [Function.update_self, continues.request]
    · rw [Function.update_self, continues.dispatch, answers]
  refine ⟨τ, refines', ?_, ?_, ?_⟩
  · intro j u member
    dsimp only
    rcases List.mem_append.mp member with before | now
    · by_cases here : j = a.1
      · subst here
        rw [Function.update_self]
        exact (Thread.act_continues (begun _ u before) acted).begun
      · rw [Function.update_of_ne here]
        exact begun j u before
    · obtain rfl := List.mem_singleton.mp now
      rw [Function.update_self]
      exact (dispatched u rfl).begun
  · intro x member
    rcases succeeds.items x member with ⟨y, inside, same⟩ | ⟨data, size, stage, url, length, payload⟩
    · exact (sourced y inside).mono later same
    · have stored := carries a.1
      rw [Carries, stage] at stored
      exact ⟨data, size, url ▸ later _ _ _ (stored.2.2 data size rfl), length, payload⟩
  · intro j
    dsimp only
    by_cases here : j = a.1
    · subst here
      rw [Function.update_self]
      refine act_carries ((carries a.1).mono later id)
        (fun x inside => (sourced x inside).mono later rfl) refines fetched_sized ?_ fetches acted
        succeeds found
      intro stray isServe
      obtain ⟨i, act⟩ := a
      obtain rfl : act = .serve stray := isServe
      exact live
    · rw [Function.update_of_ne here]
      exact (carries j).mono later succeeds.keeps

end ProxyServer
