import ProxyServer.Cache.Operations

namespace ProxyServer
open Lib

inductive Phase where
  | idle
  | purging (url : Bytes) (now : Int)
  | found (a : Addr)
  | serving (a : Addr) (size : Int) (sent : Bytes)
  deriving DecidableEq, Repr

def Phase.entry : Phase → Option Addr
  | .found a => some a
  | .serving a _ _ => some a
  | _ => none

inductive Action where
  | lookup (t : Nat) (url : Bytes) (now : Int)
  | purge (t : Nat)
  | read (t : Nat)
  | call (op : Op)

/-- `int SIZE = CACHE->LENGTH`, then `CACHE->DATA[POS]` for each `POS` below it. -/
def Cache.serve (s : Cache) : Phase → Option Phase
  | .found a => (s.entry a).map fun e => .serving a e.length []
  | .serving a size sent =>
      if sent.length < size then do
        let e ← s.entry a
        let byte ← (e.data.read s.disk)[sent.length]?
        some (.serving a size (sent ++ [byte]))
      else some .idle
  | _ => none

structure System where
  cache : Cache
  phase : Nat → Phase
  purged : List (Entry × Int)

namespace System

def init (policy : CacheEvictionPolicy) (cacheDir : Bytes) (disk : Disk) : System :=
  ⟨Cache.cacheInit policy cacheDir disk, fun _ => .idle, []⟩

def after : Cache.Lookup → Bytes → Int → Phase
  | .miss, _, _ => .idle
  | .expired, url, now => .purging url now
  | .hit a, _, _ => .found a

def step (s : System) : Action → Option System
  | .lookup t url now =>
      if s.phase t = .idle then
        (s.cache.findLocked url now).map fun r =>
          { s with cache := r.1, phase := Function.update s.phase t (after r.2 url now) }
      else none
  | .purge t =>
      match s.phase t with
      | .purging url now =>
          (s.cache.cachePurge url).map fun cache =>
            { cache
              phase := Function.update s.phase t .idle
              purged := s.purged ++
                (s.cache.items.filter (· ∉ cache.items)).map fun x => (x.entry, now) }
      | _ => none
  | .read t =>
      (s.cache.serve (s.phase t)).map fun p => { s with phase := Function.update s.phase t p }
  | .call (.find _ _) => none
  | .call .remove => none
  | .call op => (s.cache.step op).map fun cache => { s with cache }

def Served (s : System) : Prop := ∀ t a, (s.phase t).entry = some a → s.cache.heap a ≠ none

def OnlyExpired (s : System) : Prop := ∀ p ∈ s.purged, 0 < p.1.expiresAt ∧ p.1.expiresAt < p.2

def UnheldFor (s : System) (url : Bytes) : Prop :=
  ∀ x, newestFor s.cache.items url = some x → ∀ t, (s.phase t).entry ≠ some x.addr

/-- The step frees no entry that a thread holds: one that evicts leaves them all, one that purges
finds another, and the cache is cleared only while there are none. -/
def SparesHeld (s : System) : Action → Prop
  | .purge t =>
      match s.phase t with
      | .purging url _ => s.UnheldFor url
      | _ => True
  | .call (.add c) => c.refused = true ∨ ∀ t a, (s.phase t).entry = some a →
      ∃ x ∈ survivors s.cache.policy s.cache.items c, x.addr = a
  | .call (.purge url) => s.UnheldFor url
  | .call .clear => ∀ t, (s.phase t).entry = none
  | _ => True

/-- A purge comes at a time when the lookup before it would again find no fresh entry. -/
def StillExpired (s : System) : Action → Prop
  | .purge t =>
      match s.phase t with
      | .purging url now =>
          ∀ x, newestFor s.cache.items url = some x → x.entry.expired now = true
      | _ => True
  | _ => True

variable {s s' : System} {σ : Store}

inductive Steps (s : System) (σ : Store) : Action → System → Store → Prop where
  | lookup {t : Nat} {url : Bytes} {now : Int} {cache : Cache} (idle : s.phase t = .idle) :
      Steps s σ (.lookup t url now)
        { s with cache, phase := Function.update s.phase t (after (σ.find url now).2 url now) }
        (σ.find url now).1
  | purge {t : Nat} {url : Bytes} {now : Int} {cache : Cache}
      (pending : s.phase t = .purging url now) (items : cache.items = (σ.purge url).items) :
      Steps s σ (.purge t)
        { cache
          phase := Function.update s.phase t .idle
          purged := s.purged ++ (σ.items.filter (· ∉ (σ.purge url).items)).map fun x =>
            (x.entry, now) }
        (σ.purge url)
  | read {t : Nat} {p : Phase} (held : p.entry = (s.phase t).entry ∨ p.entry = none) :
      Steps s σ (.read t) { s with phase := Function.update s.phase t p } σ
  | call {op : Op} {cache : Cache} (locked : ∀ url now, op ≠ .find url now)
      (inside : op ≠ .remove) : Steps s σ (.call op) { s with cache } (σ.exec op).1

theorem serve_entry {s : Cache} {p q : Phase} (served : s.serve p = some q) :
    q.entry = p.entry ∨ q.entry = none := by
  cases p with
  | idle => cases served
  | purging url now => cases served
  | found a =>
      obtain ⟨e, -, rfl⟩ := Option.map_eq_some_iff.mp served
      exact Or.inl rfl
  | serving a size sent =>
      simp only [Cache.serve] at served
      split at served
      · obtain ⟨e, -, rest⟩ := Option.bind_eq_some_iff.mp served
        obtain ⟨byte, -, done⟩ := Option.bind_eq_some_iff.mp rest
        cases done
        exact Or.inl rfl
      · cases served
        exact Or.inr rfl

theorem step_cases {a : Action} (refines : Refines s.cache σ) (taken : s.step a = some s') :
    ∃ σ', Refines s'.cache σ' ∧ Steps s σ a s' σ' := by
  cases a with
  | lookup t url now =>
      obtain ⟨u, looked, result⟩ := refines.findLocked url now
      simp only [step, looked, Option.map_some] at taken
      split at taken
      · rename_i idle
        cases taken
        exact ⟨_, result, .lookup idle⟩
      · cases taken
  | purge t =>
      cases pending : s.phase t with
      | purging url now =>
          have same : s.cache.items = σ.items := refines.choose_spec.items
          obtain ⟨chain, rep⟩ := refines
          obtain ⟨u, purged, result⟩ := rep.purge url
          have items : u.items = (σ.purge url).items := result.choose_spec.items
          simp only [step, pending, purged, same, items, Option.map_some] at taken
          cases taken
          exact ⟨_, result, .purge pending items⟩
      | idle => simp [step, pending] at taken
      | found a => simp [step, pending] at taken
      | serving a size sent => simp [step, pending] at taken
  | read t =>
      obtain ⟨p, served, rfl⟩ := Option.map_eq_some_iff.mp taken
      exact ⟨σ, refines, .read (serve_entry served)⟩
  | call op =>
      obtain ⟨u, ran, result⟩ := refines.exec op
      have locked : ∀ url now, op ≠ .find url now := by
        intro url now same
        obtain rfl := same
        cases taken
      have inside : op ≠ .remove := by
        intro same
        obtain rfl := same
        cases taken
      have executed : s' = { s with cache := u } := by
        cases op <;> simp_all [step, Cache.step]
      subst executed
      exact ⟨_, result, .call locked inside⟩

/-! ## Entries in use -/

def Live (σ : Store) (a : Addr) : Prop := ∃ x ∈ σ.items, x.addr = a

theorem served_iff_live (refines : Refines s.cache σ) :
    s.Served ↔ ∀ t a, (s.phase t).entry = some a → Live σ a := by
  obtain ⟨chain, rep⟩ := refines
  have live (a : Addr) : s.cache.heap a ≠ none ↔ Live σ a := by
    have read : s.cache.heap a ≠ none ↔ s.cache.entry a ≠ none := by simp [Cache.entry]
    rw [read, ← rep.addr_mem, List.mem_map]
    rfl
  simp only [Served, live]

theorem live_find (σ : Store) (url : Bytes) (now : Int) {a : Addr} (live : Live σ a) :
    Live (σ.find url now).1 a := by
  obtain ⟨x, member, rfl⟩ := live
  unfold Store.find
  cases σ.newest url with
  | none => exact ⟨x, member, rfl⟩
  | some y =>
      simp only
      split
      · exact ⟨x, member, rfl⟩
      · exact ⟨⟨x.addr, _⟩, σ.mem_use.mpr ⟨x.entry, member, rfl⟩, rfl⟩

theorem live_hit {url : Bytes} {now : Int} {a : Addr} (hit : (σ.find url now).2 = .hit a) :
    Live σ a := by
  unfold Store.find at hit
  cases found : σ.newest url with
  | none => simp [found] at hit
  | some y =>
      simp only [found] at hit
      split at hit
      · cases hit
      · cases hit
        exact ⟨y, (σ.newest_mem found).1, rfl⟩

theorem live_remove {x : Item} {a : Addr} (live : Live σ a) :
    Live (σ.remove x) a ↔ x.addr ≠ a := by
  obtain ⟨y, member, rfl⟩ := live
  constructor
  · intro given gone
    obtain ⟨z, inside, same⟩ := given
    exact (σ.mem_remove.mp inside).2 (by rw [same, gone])
  · intro different
    exact ⟨y, σ.mem_remove.mpr ⟨member, Ne.symm different⟩, rfl⟩

theorem live_purge (items : s.cache.items = σ.items)
    (live : ∀ t a, (s.phase t).entry = some a → Live σ a) (url : Bytes) :
    (∀ t a, (s.phase t).entry = some a → Live (σ.purge url) a) ↔ s.UnheldFor url := by
  unfold UnheldFor Store.purge
  rw [items, show newestFor σ.items url = σ.newest url from rfl]
  cases σ.newest url with
  | none => simpa using live
  | some x =>
      simp only [Option.elim_some, Option.some.injEq, forall_eq']
      constructor
      · intro all t held
        exact (live_remove (live t _ held)).mp (all t _ held) rfl
      · intro unheld t a held
        apply (live_remove (live t a held)).mpr
        intro same
        obtain rfl := same
        exact unheld t held

theorem live_add (items : s.cache.items = σ.items) (policy : s.cache.policy = σ.policy)
    (live : ∀ t a, (s.phase t).entry = some a → Live σ a) (c : Cache.AddCall) :
    (∀ t a, (s.phase t).entry = some a → Live (σ.add c).1 a) ↔ s.SparesHeld (.call (.add c)) := by
  simp only [SparesHeld, items, policy]
  cases refused : c.refused with
  | true => simpa [Store.add, refused] using live
  | false =>
      obtain ⟨new, all, fresh⟩ := σ.add_items refused
      simp only [Bool.false_eq_true, false_or, Live, all, List.mem_append]
      constructor
      · intro kept t a held
        obtain ⟨x, old | last, rfl⟩ := kept t a held
        · exact ⟨x, old, rfl⟩
        · obtain ⟨y, member, same⟩ := live t _ held
          have bound := σ.allocated y member
          rw [same, (fresh x last).1] at bound
          exact absurd bound (Nat.lt_irrefl _)
      · intro kept t a held
        obtain ⟨x, old, same⟩ := kept t a held
        exact ⟨x, Or.inl old, same⟩

theorem served_step {a : Action} {σ' : Store} (refines : Refines s.cache σ)
    (refines' : Refines s'.cache σ') (served : s.Served) (steps : Steps s σ a s' σ') :
    s'.Served ↔ s.SparesHeld a := by
  have items : s.cache.items = σ.items := refines.choose_spec.items
  have policy : s.cache.policy = σ.policy := refines.choose_spec.policy
  rw [served_iff_live refines] at served
  rw [served_iff_live refines']
  cases steps with
  | @lookup t url now cache idle =>
      apply iff_of_true _ trivial
      intro t' a held
      dsimp only at held
      by_cases here : t' = t
      · subst here
        rw [Function.update_self] at held
        cases result : (σ.find url now).2 with
        | miss => simp [after, result, Phase.entry] at held
        | expired => simp [after, result, Phase.entry] at held
        | hit b =>
            simp only [after, result, Phase.entry, Option.some.injEq] at held
            exact held ▸ live_find σ url now (live_hit result)
      · rw [Function.update_of_ne here] at held
        exact live_find σ url now (served t' a held)
  | @purge t url now cache pending same =>
      have phases : ∀ t', (Function.update s.phase t .idle t').entry = (s.phase t').entry := by
        intro t'
        by_cases here : t' = t
        · subst here
          rw [Function.update_self, pending]
          rfl
        · rw [Function.update_of_ne here]
      simp only [phases, SparesHeld, pending]
      exact live_purge items served url
  | @read t p held =>
      apply iff_of_true _ trivial
      intro t' a holds
      dsimp only at holds
      by_cases here : t' = t
      · subst here
        rw [Function.update_self] at holds
        rcases held with same | none
        · exact served t' a (same ▸ holds)
        · simp [none] at holds
      · rw [Function.update_of_ne here] at holds
        exact served t' a holds
  | @call op cache locked inside =>
      cases op with
      | add c => exact live_add items policy served c
      | purge url => exact live_purge items served url
      | clear =>
          simp only [SparesHeld, Option.eq_none_iff_forall_ne_some]
          constructor
          · intro all t a held
            obtain ⟨x, member, -⟩ := all t a held
            simp [Store.exec, Store.clear] at member
          · intro free t a held
            exact absurd held (free t a)
      | find url now => exact absurd rfl (locked url now)
      | remove => exact absurd rfl inside
      | setPolicy policy => exact iff_of_true served trivial

theorem step_refines {a : Action} (known : ∃ σ, Refines s.cache σ) (taken : s.step a = some s') :
    ∃ σ, Refines s'.cache σ := by
  obtain ⟨σ, refines⟩ := known
  obtain ⟨σ', result, -⟩ := step_cases refines taken
  exact ⟨σ', result⟩

/-- In a run no thread ever holds a freed entry exactly if no step frees an entry that one holds. -/
theorem served_iff_sparesHeld {policy : CacheEvictionPolicy} {cacheDir : Bytes} {disk : Disk}
    {actions : List Action} (complete : run step (init policy cacheDir disk) actions = some s) :
    EveryState step (init policy cacheDir disk) actions Served ↔
      EveryStep step (init policy cacheDir disk) actions SparesHeld := by
  apply everyState_iff_everyStep step fun s => ∃ σ, Refines s.cache σ
  · exact fun s a s' known taken => step_refines known taken
  · intro s a s' given served taken
    obtain ⟨σ, refines⟩ := given
    obtain ⟨σ', result, steps⟩ := step_cases refines taken
    exact served_step refines result served steps
  · exact ⟨_, Refines.init policy cacheDir disk⟩
  · intro t a held
    cases held
  · exact complete

theorem served_iff_sparesHeld_room :
    ∃ s, run step (init .lru [] .empty) [.call (.add (sampleCall "a" "1")),
        .lookup 0 (ascii "a") 5, .call (.add (sampleCall "b" "2"))] = some s ∧
      (EveryState step (init .lru [] .empty) [.call (.add (sampleCall "a" "1")),
          .lookup 0 (ascii "a") 5, .call (.add (sampleCall "b" "2"))] Served ↔
        EveryStep step (init .lru [] .empty) [.call (.add (sampleCall "a" "1")),
          .lookup 0 (ascii "a") 5, .call (.add (sampleCall "b" "2"))] SparesHeld) := by
  obtain ⟨s, reached⟩ := Option.isSome_iff_exists.mp (show (run step (init .lru [] .empty)
    [.call (.add (sampleCall "a" "1")), .lookup 0 (ascii "a") 5,
      .call (.add (sampleCall "b" "2"))]).isSome = true by decide)
  exact ⟨s, reached, served_iff_sparesHeld reached⟩

theorem eviction_frees_served :
    ∃ s, run step (init .lru [] .empty) [.call (.add (sampleCall "a" "1")),
        .lookup 0 (ascii "a") 5, .read 0, .call (.add (sampleCall "b" "2")),
        .call (.add (sampleCall "c" "3"))] = some s ∧
      ¬ s.Served ∧ s.step (.read 0) = none := by
  obtain ⟨s, reached⟩ := Option.isSome_iff_exists.mp (show (run step (init .lru [] .empty)
    [.call (.add (sampleCall "a" "1")), .lookup 0 (ascii "a") 5, .read 0,
      .call (.add (sampleCall "b" "2")), .call (.add (sampleCall "c" "3"))]).isSome = true
    by decide)
  have freed : (run step (init .lru [] .empty) [.call (.add (sampleCall "a" "1")),
      .lookup 0 (ascii "a") 5, .read 0, .call (.add (sampleCall "b" "2")),
      .call (.add (sampleCall "c" "3"))]).map (fun s => ((s.phase 0).entry, s.cache.heap 0)) =
        some (some 0, none) := by decide
  have faults : (run step (init .lru [] .empty) [.call (.add (sampleCall "a" "1")),
      .lookup 0 (ascii "a") 5, .read 0, .call (.add (sampleCall "b" "2")),
      .call (.add (sampleCall "c" "3"))]).map (fun s => (s.step (.read 0)).isNone) =
        some true := by decide
  simp only [reached, Option.map_some, Option.some.injEq, Prod.mk.injEq] at freed faults
  exact ⟨s, reached, fun served => served 0 0 freed.1 freed.2, Option.isNone_iff_eq_none.mp faults⟩

/-! ## Expired entries -/

theorem onlyExpired_step {a : Action} {σ' : Store} (items : s.cache.items = σ.items)
    (expired : s.OnlyExpired) (steps : Steps s σ a s' σ') :
    s'.OnlyExpired ↔ s.StillExpired a := by
  cases steps with
  | lookup idle => exact iff_of_true expired trivial
  | read held => exact iff_of_true expired trivial
  | call locked inside => exact iff_of_true expired trivial
  | @purge t url now cache pending same =>
      have gone (x : Item) : x ∈ σ.items.filter (· ∉ (σ.purge url).items) ↔
          newestFor σ.items url = some x := by
        change _ ↔ σ.newest url = some x
        simp only [List.mem_filter, decide_eq_true_eq]
        cases found : σ.newest url with
        | none => simp [Store.purge, found]
        | some y =>
            have member := (σ.newest_mem found).1
            simp only [Store.purge, found, Option.elim_some, σ.mem_remove, not_and, not_not,
              Option.some.injEq]
            constructor
            · intro given
              obtain ⟨inside, same⟩ := given
              exact (List.inj_on_of_nodup_map σ.distinct inside member (same inside)).symm
            · intro same
              obtain rfl := same
              exact ⟨member, fun _ => rfl⟩
      simp only [OnlyExpired, StillExpired, pending, items, List.mem_append, List.mem_map, gone]
      constructor
      · intro all x found
        have old := all (x.entry, now) (Or.inr ⟨x, found, rfl⟩)
        simpa [Entry.expired] using old
      · rintro still p (before | ⟨x, found, rfl⟩)
        · exact expired p before
        · simpa [Entry.expired] using still x found

/-- In a run the purges of lookups take out expired entries only, exactly if each of them comes
when the lookup, done again for the time it had read, would not be a hit. -/
theorem onlyExpired_iff_stillExpired {policy : CacheEvictionPolicy} {cacheDir : Bytes} {disk : Disk}
    {actions : List Action} (complete : run step (init policy cacheDir disk) actions = some s) :
    EveryState step (init policy cacheDir disk) actions OnlyExpired ↔
      EveryStep step (init policy cacheDir disk) actions StillExpired := by
  apply everyState_iff_everyStep step fun s => ∃ σ, Refines s.cache σ
  · exact fun s a s' known taken => step_refines known taken
  · intro s a s' given expired taken
    obtain ⟨σ, refines⟩ := given
    obtain ⟨σ', -, steps⟩ := step_cases refines taken
    exact onlyExpired_step refines.choose_spec.items expired steps
  · exact ⟨_, Refines.init policy cacheDir disk⟩
  · intro p member
    cases member
  · exact complete

theorem onlyExpired_iff_stillExpired_alone :
    ∃ s, run step (init .lru [] .empty) [.call (.add (sampleCall "u" "1")),
        .lookup 0 (ascii "u") 4000, .purge 0] = some s ∧
      (EveryState step (init .lru [] .empty) [.call (.add (sampleCall "u" "1")),
          .lookup 0 (ascii "u") 4000, .purge 0] OnlyExpired ↔
        EveryStep step (init .lru [] .empty) [.call (.add (sampleCall "u" "1")),
          .lookup 0 (ascii "u") 4000, .purge 0] StillExpired) := by
  obtain ⟨s, reached⟩ := Option.isSome_iff_exists.mp (show (run step (init .lru [] .empty)
    [.call (.add (sampleCall "u" "1")), .lookup 0 (ascii "u") 4000, .purge 0]).isSome = true
    by decide)
  exact ⟨s, reached, onlyExpired_iff_stillExpired reached⟩

theorem purge_takes_fresh :
    ∃ s, run step (init .lru [] .empty) [.call (.add (sampleCall "u" "1")),
        .lookup 0 (ascii "u") 4000, .lookup 1 (ascii "u") 4000, .purge 1,
        .call (.add { sampleCall "u" "2" with expiryTime := 4000 }), .purge 0] = some s ∧
      ¬ s.OnlyExpired := by
  obtain ⟨s, reached⟩ := Option.isSome_iff_exists.mp (show (run step (init .lru [] .empty)
    [.call (.add (sampleCall "u" "1")), .lookup 0 (ascii "u") 4000, .lookup 1 (ascii "u") 4000,
      .purge 1, .call (.add { sampleCall "u" "2" with expiryTime := 4000 }),
      .purge 0]).isSome = true by decide)
  have lost : (run step (init .lru [] .empty) [.call (.add (sampleCall "u" "1")),
      .lookup 0 (ascii "u") 4000, .lookup 1 (ascii "u") 4000, .purge 1,
      .call (.add { sampleCall "u" "2" with expiryTime := 4000 }), .purge 0]).map
        (fun s => s.purged.map fun p => (p.1.expiresAt, p.2)) =
      some [(3600, 4000), (7600, 4000)] := by decide
  simp only [reached, Option.map_some, Option.some.injEq] at lost
  refine ⟨s, reached, fun expired => ?_⟩
  obtain ⟨p, member, shape⟩ : ∃ p ∈ s.purged, (p.1.expiresAt, p.2) = (7600, 4000) :=
    List.mem_map.mp (lost ▸ by simp)
  obtain ⟨late, time⟩ := Prod.mk.inj shape
  have early := (expired p member).2
  omega

end System
end ProxyServer
