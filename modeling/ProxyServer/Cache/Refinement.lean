import ProxyServer.Cache.Represents

namespace ProxyServer
open Lib

namespace Represents

variable {s : Cache} {σ : Store} {chain : Fin hashTableSize → List Addr}

/-! ## Removal -/

theorem listRemove (rep : Represents s σ chain) {x : Item} (member : x ∈ σ.items) {t : Cache}
    (links : t.links = s.links) (entry : t.entry = s.entry) :
    ∃ u, t.listRemove x.addr = some u ∧ u.links = s.links.remove x.addr ∧ Cache.SameChains t u := by
  obtain ⟨L, R, items⟩ := List.append_of_mem member
  have holds := rep.list
  rw [items, List.map_append, List.map_cons] at holds
  have listed : ∀ b, b ∈ L.map Item.addr ∨ b ∈ R.map Item.addr → t.entry b ≠ none := by
    intro b inside
    rw [entry, ← rep.addr_mem, items, List.map_append, List.map_cons, List.mem_append,
      List.mem_cons]
    tauto
  rw [← links] at holds ⊢
  apply Cache.listRemove_spec (e := x.entry)
  · rw [entry]
    exact (rep.entries _ _).mpr member
  · intro p before
    rw [holds.prev_eq] at before
    exact listed p (Or.inl (List.mem_of_getLast? before))
  · intro q after
    rw [holds.remove_next, holds.next_eq] at after
    exact listed q (Or.inr (List.mem_of_mem_head? (Option.mem_def.mpr after)))

theorem purge (rep : Represents s σ chain) (url : Bytes) :
    ∃ u, s.cachePurge url = some u ∧ Refines u (σ.purge url) := by
  cases found : σ.newest url with
  | none =>
      refine ⟨s, ?_, chain, ?_⟩
      · simp [Cache.cachePurge, rep.lookup_missed found]
      · simpa [Store.purge, found] using rep
  | some x =>
      obtain ⟨inside, url_eq⟩ := σ.newest_mem found
      obtain ⟨l, r, split, walked⟩ := rep.lookup_found found
      have live := (rep.entries x.addr x.entry).mpr inside
      obtain ⟨n, read, -⟩ := Cache.heap_of_entry live
      have before : ∀ b, l.getLast? = some b → s.entry b ≠ none := by
        intro b last
        obtain ⟨e, found, -⟩ := rep.chain_live (h := hashUrl url) (a := b)
          (by simp [split, List.mem_of_getLast? last])
        simp [found]
      obtain ⟨t, linked, same, table, chainNext⟩ :=
        Cache.linkChain_spec (h := hashUrl url) n.next before
      obtain ⟨u, removed, linksU, sameU⟩ := rep.listRemove inside same.links same.entry
      have out : Detached s u (hashUrl x.entry.url) l.getLast? x.addr := by
        rw [url_eq]
        rw [← Cache.chainNext_some read] at table chainNext
        exact ⟨linksU, sameU.entry.trans same.entry, sameU.hashTable.trans table,
          sameU.chainNext.trans chainNext, sameU.brk.trans same.brk,
          sameU.cacheSize.trans same.cacheSize, sameU.policy.trans same.policy,
          sameU.cacheDir.trans same.cacheDir, sameU.disk.trans same.disk⟩
      obtain ⟨v, discarded, result⟩ := rep.discard inside (by rw [url_eq, split]) out
      have kept : σ.purge url = σ.remove x := by simp [Store.purge, found]
      refine ⟨v, ?_, _, kept ▸ result⟩
      simp [Cache.cachePurge, walked, read, linked, removed, discarded]

/-! ## Eviction -/

theorem scanVictim (rep : Represents s σ chain) (key : Entry → Int) (fuel : Nat)
    {p : Option Addr} {ys : List Item} (best : Item)
    (path : PointerPath s.links.next p (ys.map Item.addr)) (known : ∀ y ∈ ys, y ∈ σ.items)
    (least : best ∈ σ.items) (enough : ys.length < fuel) :
    s.scanVictim key fuel p best.addr =
      some (ys.foldl (lesser fun x => key x.entry) best).addr := by
  induction ys generalizing fuel p best with
  | nil =>
      obtain ⟨fuel, rfl⟩ := Nat.exists_eq_succ_of_ne_zero (Nat.ne_of_gt enough)
      cases path
      rfl
  | cons y ys ih =>
      cases fuel with
      | zero => simp at enough
      | succ fuel =>
          have member := known y (by simp)
          obtain ⟨n, read, sameN⟩ := Cache.heap_of_entry ((rep.entries _ _).mpr member)
          obtain ⟨b, readBest, sameB⟩ := Cache.heap_of_entry ((rep.entries _ _).mpr least)
          have rest : PointerPath s.links.next n.nextLru (ys.map Item.addr) := by
            rw [← Cache.links_next read]
            exact path.2
          have chosen : (if key n.toEntry < key b.toEntry then y.addr else best.addr) =
              (lesser (fun x => key x.entry) best y).addr := by
            rw [sameN, sameB, lesser]
            split_ifs <;> rfl
          have stays : lesser (fun x => key x.entry) best y ∈ σ.items := by
            unfold lesser
            split_ifs
            · exact member
            · exact least
          rw [path.1, Cache.scanVictim]
          simp only [read, readBest, Option.bind_eq_bind, Option.bind_some, chosen]
          exact ih fuel _ rest (fun z inside => known z (by simp [inside])) stays
            (by simpa using enough)

theorem chooseVictim (rep : Represents s σ chain) {x : Item} {rest : List Item}
    (items : σ.items = x :: rest) :
    ∃ y, σ.victim = some y ∧ s.chooseVictim x.addr = some y.addr := by
  have first : σ.victim = some (rest.foldl (lesser (itemKey σ.policy)) x) := by
    rw [Store.victim, items, rank_head]
  refine ⟨_, first, ?_⟩
  have enough := rep.length_le_brk
  have path := rep.list.forward
  rw [rep.list.head_eq, items] at path
  have scanned := rep.scanVictim (Cache.victimKey σ.policy) (s.brk + 1) x path
    (fun y inside => items ▸ inside) (by simp [items]) (by rw [← items]; omega)
  have again : lesser (fun x : Item => Cache.victimKey σ.policy x.entry) x x = x := by simp [lesser]
  rw [List.foldl_cons, again] at scanned
  rw [Cache.chooseVictim, rep.policy]
  cases policy : σ.policy with
  | lru =>
      have stays : rest.foldl (lesser (itemKey .lru)) x = x := by
        have ranked : (rank (itemKey .lru) (x :: rest)).head? = some x := by
          rw [rank_constant _ fun _ _ => le_rfl]
          rfl
        rw [rank_head] at ranked
        exact Option.some.inj ranked
      rw [stays]
  | lfu =>
      rw [policy] at scanned
      exact scanned
  | ttl =>
      rw [policy] at scanned
      exact scanned

theorem unlinkVictim (rep : Represents s σ chain) {t : Cache} (same : Cache.SameChains s t)
    {h : Fin hashTableSize} {l r : List Addr} {a : Addr} (n : CacheModule)
    (split : chain h = l ++ a :: r) :
    ∃ u, t.unlinkVictim h a n = some u ∧ Cache.SameList t u ∧
      u.hashTable =
        Function.update s.hashTable h (relink (s.hashTable h) s.chainNext l.getLast? n.next).1 ∧
      u.chainNext = (relink (s.hashTable h) s.chainNext l.getLast? n.next).2 := by
  have path := rep.chains h
  have nodup := rep.chain_nodup h
  rw [split] at path nodup
  rcases List.eq_nil_or_concat l with rfl | ⟨l, b, rfl⟩
  · refine ⟨{ t with hashTable := Function.update t.hashTable h n.next }, ?_,
      ⟨rfl, rfl, rfl, rfl, rfl, rfl, rfl⟩, ?_, same.chainNext⟩
    · rw [Cache.unlinkVictim, if_pos (by rw [same.hashTable, path_head path]; rfl)]
    · rw [same.hashTable]
      rfl
  · simp only [List.concat_eq_append, List.append_assoc, List.singleton_append] at *
    have later : t.hashTable h ≠ some a := by
      rw [same.hashTable, path_head path]
      intro first
      rw [show l ++ b :: a :: r = (l ++ [b]) ++ a :: r by simp] at nodup
      apply (List.nodup_middle.mp nodup).notMem
      cases l with
      | nil => simpa using Or.inl (Option.some.inj first).symm
      | cons c l => simpa using Or.inl (Option.some.inj first).symm
    obtain ⟨e, live, -⟩ := rep.chain_live (h := h) (by simp [split] : b ∈ chain h)
    rw [← same.entry] at live
    obtain ⟨m, read, -⟩ := Cache.heap_of_entry live
    have link : m.next = some a := by
      rw [← Cache.chainNext_some read, same.chainNext, path_next path]
      rfl
    have walked := rep.walkChain_found same (fun m => m.next = some a) split read
      (by simpa using link) (by
        intro c inside k loaded
        rw [← Cache.chainNext_some loaded, same.chainNext]
        simpa using path_next_ne path nodup inside)
    obtain ⟨u, stored, chainNext, list, table⟩ := Cache.setNext_spec n.next live
    refine ⟨u, ?_, list, ?_, ?_⟩
    · rw [Cache.unlinkVictim, if_neg later]
      simp [walked, stored]
    · rw [table, same.hashTable]
      simp [relink]
    · rw [chainNext, same.chainNext]
      simp [relink]

theorem removeVictim (rep : Represents s σ chain) {x : Item} (chosen : σ.victim = some x) :
    ∃ u, s.removeCache = some u ∧
      Represents u (σ.remove x) fun h => (chain h).erase x.addr := by
  have head := rep.list.head_eq
  have member := σ.victim_mem chosen
  obtain ⟨first, rest, items⟩ := List.exists_cons_of_ne_nil (List.ne_nil_of_mem member)
  obtain ⟨y, chosen', scanned⟩ := rep.chooseVictim items
  obtain rfl : x = y := Option.some.inj (chosen.symm.trans chosen')
  rw [items] at head
  obtain ⟨t, removed, linksT, same⟩ := rep.listRemove member rfl rfl
  have live := (rep.entries _ _).mpr member
  rw [← same.entry] at live
  obtain ⟨n, read, sameN⟩ := Cache.heap_of_entry live
  have inChain : x.addr ∈ chain (hashUrl x.entry.url) := (rep.hashed _ _).mpr ⟨_, member, rfl⟩
  obtain ⟨l, r, split⟩ := List.append_of_mem inChain
  obtain ⟨u, unlinked, list, table, chainNext⟩ := rep.unlinkVictim same n split
  have out : Detached s u (hashUrl x.entry.url) l.getLast? x.addr := by
    have next : n.next = s.chainNext x.addr := by
      rw [← Cache.chainNext_some read, same.chainNext]
    rw [next] at table chainNext
    exact ⟨list.links.trans linksT, list.entry.trans same.entry, table, chainNext,
      list.brk.trans same.brk, list.cacheSize.trans same.cacheSize,
      list.policy.trans same.policy, list.cacheDir.trans same.cacheDir,
      list.disk.trans same.disk⟩
  obtain ⟨v, discarded, result⟩ := rep.discard member split out
  refine ⟨v, ?_, result⟩
  rw [Cache.removeCache, show s.listHead = some first.addr from head]
  have url : n.url = x.entry.url := congrArg Entry.url sameN
  simp [scanned, removed, read, url, unlinked, discarded]

theorem removeCache (rep : Represents s σ chain) :
    ∃ u, s.removeCache = some u ∧ Refines u (σ.victim.elim σ σ.remove) := by
  cases chosen : σ.victim with
  | none =>
      have head := rep.list.head_eq
      rw [σ.victim_none.mp chosen] at head
      refine ⟨s, ?_, chain, rep⟩
      rw [Cache.removeCache, show s.listHead = none from head]
  | some x =>
      obtain ⟨u, removed, result⟩ := rep.removeVictim chosen
      exact ⟨u, removed, _, result⟩

/-! ## Lookup -/

theorem listMoveToEnd (rep : Represents s σ chain) {x : Item} (member : x ∈ σ.items) :
    ∃ u, s.listMoveToEnd x.addr = some u ∧ Represents u (σ.moveToEnd x.addr) chain := by
  obtain ⟨L, R, items⟩ := List.append_of_mem member
  obtain ⟨t, removed, linksT, sameT⟩ := rep.listRemove member rfl rfl
  have holds := rep.list
  rw [items, List.map_append, List.map_cons] at holds
  have rest := holds.remove
  rw [← linksT] at rest
  have live : t.entry x.addr = some x.entry := by
    rw [sameT.entry]
    exact (rep.entries _ _).mpr member
  obtain ⟨u, appended, linksU, sameU⟩ := Cache.listAppend_spec live (by
    intro b tail
    rw [rest.tail_eq] at tail
    have inside := List.mem_of_getLast? tail
    rw [sameT.entry, ← rep.addr_mem, items, List.map_append, List.map_cons]
    simp only [List.mem_append, List.mem_cons] at inside ⊢
    tauto)
  have same := sameT.trans sameU
  refine ⟨u, by simp [Cache.listMoveToEnd, removed, appended], ?_, ?_, ?_, rep.latestFirst, ?_,
    ?_, ?_, ?_, ?_, ?_⟩
  · have fresh : x.addr ∉ L.map Item.addr ++ R.map Item.addr :=
      (List.nodup_middle.mp holds.nodup).notMem
    rw [linksU, σ.moveToEnd_split items]
    simpa using rest.append fresh
  · intro a e
    rw [same.entry, rep.entries, (σ.moveToEnd_perm x.addr).mem_iff]
  · intro h
    rw [same.chainNext, same.hashTable]
    exact rep.chains h
  · intro h a
    simp only [(σ.moveToEnd_perm x.addr).mem_iff]
    exact rep.hashed h a
  · rw [same.cacheSize, rep.cacheSize, Store.total, Store.total,
      ((σ.moveToEnd_perm x.addr).map weight).sum_eq]
  · exact same.brk.trans rep.brk
  · exact same.policy.trans rep.policy
  · exact same.cacheDir.trans rep.cacheDir
  · exact same.disk.trans rep.disk

theorem touch (rep : Represents s σ chain) {x : Item} (member : x ∈ σ.items) (now : Int) :
    ∃ t, s.store x.addr (fun n => { n with toEntry := n.touch now }) = some t ∧
      Represents t (σ.modify x.addr (·.touch now)) chain := by
  obtain ⟨n, read, same⟩ := Cache.heap_of_entry ((rep.entries _ _).mpr member)
  have written : Cache.entry { s with
      heap := Function.update s.heap x.addr (some { n with toEntry := n.touch now }) } =
      Function.update s.entry x.addr (some (x.entry.touch now)) :=
    Cache.field_update (Option.map CacheModule.toEntry) _ (by rw [← same]; rfl)
  refine ⟨_, Cache.store_eq read _, ?_, ?_, ?_, rep.latestFirst, ?_, ?_, rep.brk, rep.policy,
    rep.cacheDir, rep.disk⟩
  · rw [σ.modify_addr]
    convert rep.list using 1
    exact Links.ext rfl rfl (Cache.field_keep (·.bind (·.nextLru)) read rfl)
      (Cache.field_keep (·.bind (·.prevLru)) read rfl)
  · intro a e
    rw [written, σ.mem_modify]
    by_cases here : a = x.addr
    · subst here
      rw [Function.update_self]
      constructor
      · intro same
        obtain ⟨rfl⟩ := same
        exact ⟨x.entry, member, by simp⟩
      · intro given
        obtain ⟨f, inside, rfl⟩ := given
        rw [σ.entry_unique inside member]
        simp
    · rw [Function.update_of_ne here, rep.entries]
      simp [here]
  · intro h
    convert rep.chains h using 1
    exact Cache.field_keep (·.bind (·.next)) read rfl
  · intro h a
    rw [rep.hashed]
    simp only [σ.mem_modify]
    constructor
    · intro given
      obtain ⟨e, inside, hash⟩ := given
      refine ⟨_, ⟨e, inside, rfl⟩, ?_⟩
      split <;> exact hash
    · intro given
      obtain ⟨e, ⟨f, inside, rfl⟩, hash⟩ := given
      refine ⟨f, inside, ?_⟩
      split at hash <;> exact hash
  · have sizes : (σ.modify x.addr (·.touch now)).items.map weight = σ.items.map weight := by
      simp only [Store.modify, List.map_map]
      apply List.map_congr_left
      intro y _
      simp only [Function.comp_apply]
      split <;> rfl
    rw [Store.total, sizes]
    exact rep.cacheSize

/-! ## Insertion -/

theorem withDisk (rep : Represents s σ chain) (disk : Disk) :
    Represents { s with disk } (σ.withDisk disk) chain :=
  ⟨rep.list, rep.entries, rep.chains, rep.latestFirst, rep.hashed, rep.cacheSize, rep.brk,
    rep.policy, rep.cacheDir, rfl⟩

theorem insert (rep : Represents s σ chain) (e : Entry) :
    ∃ u, s.insert e (elementSize e.length e.url) = some u ∧
      Represents u (σ.insert e) (Function.update chain (hashUrl e.url)
        (σ.brk :: chain (hashUrl e.url))) := by
  have fresh : ∀ x ∈ σ.items, x.addr ≠ s.brk := fun x inside =>
    Nat.ne_of_lt (rep.brk ▸ σ.allocated x inside)
  have unlisted : s.brk ∉ σ.items.map Item.addr := by simpa using fun x inside => fresh x inside
  have offChain : ∀ h, ∀ b ∈ chain h, b ≠ s.brk := by
    intro h b member
    obtain ⟨f, -, inside, -⟩ := rep.chain_live member
    exact fresh _ inside
  let new : CacheModule :=
    { toEntry := e, next := s.hashTable (hashUrl e.url), prevLru := none, nextLru := none }
  let t : Cache := { s with
    heap := Function.update s.heap s.brk (some new)
    brk := s.brk + 1
    hashTable := Function.update s.hashTable (hashUrl e.url) (some s.brk) }
  have entryT : t.entry = Function.update s.entry s.brk (some e) :=
    Cache.field_update (Option.map CacheModule.toEntry) _ rfl
  have chainNextT : t.chainNext = Function.update s.chainNext s.brk (s.hashTable (hashUrl e.url)) :=
    Cache.field_update (·.bind (·.next)) _ rfl
  have listT : t.links.Holds (σ.items.map Item.addr) := by
    have next : t.links.next = Function.update s.links.next s.brk none :=
      Cache.field_update (·.bind (·.nextLru)) _ rfl
    have prev : t.links.prev = Function.update s.links.prev s.brk none :=
      Cache.field_update (·.bind (·.prevLru)) _ rfl
    refine rep.list.congr t.links rfl rfl ?_ ?_
    · intro a member
      rw [next, Function.update_of_ne (ne_of_mem_of_not_mem member unlisted)]
    · intro a member
      rw [prev, Function.update_of_ne (ne_of_mem_of_not_mem member unlisted)]
  obtain ⟨u, appended, links, same⟩ := Cache.listAppend_spec (s := t) (a := s.brk) (e := e)
    (by simp [entryT]) (by
      intro b tail
      rw [listT.tail_eq] at tail
      have member := List.mem_of_getLast? tail
      rw [entryT, Function.update_of_ne (ne_of_mem_of_not_mem member unlisted)]
      exact rep.addr_mem.mp member)
  refine ⟨{ u with cacheSize := (u.cacheSize + elementSize e.length e.url) % 2 ^ 64 }, ?_, ?_, ?_,
    ?_, ?_, ?_, ?_, ?_, same.policy.trans rep.policy, same.cacheDir.trans rep.cacheDir,
    same.disk.trans rep.disk⟩
  · change (t.listAppend s.brk).bind _ = _
    rw [appended]
    rfl
  · change u.links.Holds _
    rw [links]
    simpa [Store.insert, rep.brk] using listT.append unlisted
  · intro a f
    change u.entry a = _ ↔ _
    rw [same.entry, entryT]
    simp only [Store.insert, List.mem_append, List.mem_singleton, Item.mk.injEq, ← rep.brk]
    by_cases here : a = s.brk
    · subst here
      have absent : ⟨s.brk, f⟩ ∉ σ.items := fun inside => fresh _ inside rfl
      simp [absent, eq_comm]
    · rw [Function.update_of_ne here, rep.entries]
      simp [here]
  · intro h
    change PointerPath u.chainNext (u.hashTable h) _
    have path (k : Fin hashTableSize) : PointerPath t.chainNext (s.hashTable k) (chain k) := by
      apply path_congr _ (rep.chains k)
      intro b member
      rw [chainNextT, Function.update_of_ne (offChain k b member)]
    rw [same.chainNext, same.hashTable]
    by_cases here : h = hashUrl e.url
    · subst here
      simp only [Function.update_self, t]
      refine ⟨by rw [rep.brk], ?_⟩
      rw [← rep.brk, chainNextT, Function.update_self, ← chainNextT]
      exact path _
    · simp only [Function.update_of_ne here, t]
      exact path h
  · intro h
    by_cases here : h = hashUrl e.url
    · subst here
      rw [Function.update_self]
      refine List.pairwise_cons.mpr ⟨?_, rep.latestFirst _⟩
      intro b member
      obtain ⟨f, -, inside, -⟩ := rep.chain_live member
      exact σ.allocated _ inside
    · rw [Function.update_of_ne here]
      exact rep.latestFirst h
  · intro h a
    simp only [Store.insert, List.mem_append, List.mem_singleton, Item.mk.injEq, or_and_right,
      exists_or, ← rep.hashed]
    by_cases here : h = hashUrl e.url
    · subst here
      simp [or_comm]
    · rw [Function.update_of_ne here]
      simp [Ne.symm here]
  · change (u.cacheSize + _) % 2 ^ 64 = _
    rw [same.cacheSize, show t.cacheSize = _ from rep.cacheSize]
    simp [Store.total, Store.insert, weight]
  · exact same.brk.trans (congrArg (· + 1) rep.brk)

end Represents

/-! ## Clearing -/

namespace Cache

def freed (s : Cache) (xs : List Addr) : Cache :=
  { s with
    heap := fun a => if a ∈ xs then none else s.heap a
    disk := xs.foldl (fun d a => (s.entry a).elim d d.forget) s.disk }

theorem freed_keeps (s : Cache) {β : Type} (field : Option CacheModule → β) {xs : List Addr}
    {a : Addr} (outside : a ∉ xs) : field ((s.freed xs).heap a) = field (s.heap a) := by
  simp [freed, outside]

theorem freed_append (s : Cache) {xs ys : List Addr} (apart : xs.Disjoint ys) :
    (s.freed xs).freed ys = s.freed (xs ++ ys) := by
  have kept : ys.foldl (fun d a => ((s.freed xs).entry a).elim d d.forget) (s.freed xs).disk =
      ys.foldl (fun d a => (s.entry a).elim d d.forget) (s.freed xs).disk := by
    apply List.foldl_ext
    intro d a member
    rw [entry, s.freed_keeps (Option.map CacheModule.toEntry) fun inside => apart inside member]
    rfl
  have heap : ((s.freed xs).freed ys).heap = (s.freed (xs ++ ys)).heap := by
    funext a
    simp only [freed, List.mem_append]
    split_ifs <;> simp_all
  simp only [freed, List.foldl_append] at kept heap ⊢
  rw [kept, heap]

theorem clearChain_spec {s : Cache} {p : Option Addr} (xs : List Addr) {fuel : Nat}
    (path : PointerPath s.chainNext p xs) (nodup : xs.Nodup) (live : ∀ a ∈ xs, s.entry a ≠ none)
    (enough : xs.length < fuel) : clearChain fuel s p = some (s.freed xs) := by
  induction xs generalizing s p fuel with
  | nil =>
      obtain ⟨fuel, rfl⟩ := Nat.exists_eq_succ_of_ne_zero (Nat.ne_of_gt enough)
      rw [show p = none from path]
      simp [clearChain, freed]
  | cons a xs ih =>
      obtain ⟨fuel, rfl⟩ := Nat.exists_eq_succ_of_ne_zero (Nat.ne_of_gt (Nat.zero_lt_of_lt enough))
      obtain ⟨apart, nodup⟩ := List.nodup_cons.mp nodup
      obtain ⟨e, found⟩ := Option.ne_none_iff_exists'.mp (live a (by simp))
      obtain ⟨n, read, same⟩ := heap_of_entry found
      have first : s.release a n = s.freed [a] := by
        simp only [release, freed, List.mem_singleton, List.foldl_cons, List.foldl_nil, found, same,
          Option.elim_some]
        congr 1
        funext b
        simp [Function.update_apply]
      have outside : ∀ b ∈ xs, b ∉ [a] := fun b member here =>
        apart (List.mem_singleton.mp here ▸ member)
      have rest : PointerPath (s.freed [a]).chainNext n.next xs := by
        rw [← chainNext_some read]
        exact path_congr (fun b member => s.freed_keeps (·.bind (·.next)) (outside b member)) path.2
      rw [path.1, clearChain, read, Option.bind_eq_bind, Option.bind_some, first, ih rest nodup]
      · rw [s.freed_append (by simpa using apart), List.singleton_append]
      · intro b member
        rw [entry, s.freed_keeps (Option.map CacheModule.toEntry) (outside b member)]
        exact live b (by simp [member])
      · simpa using enough

end Cache

namespace Represents

variable {s : Cache} {σ : Store} {chain : Fin hashTableSize → List Addr}

theorem clearChains (rep : Represents s σ chain) (done : List (Fin hashTableSize))
    (nodup : done.Nodup) :
    done.foldlM (fun s i => do
      let s ← Cache.clearChain (s.brk + 1) s (s.hashTable i)
      some { s with hashTable := Function.update s.hashTable i none }) s =
    some { s.freed (done.flatMap chain) with
      hashTable := fun i => if i ∈ done then none else s.hashTable i } := by
  induction done using List.reverseRecOn with
  | nil => simp [Cache.freed]
  | append_singleton done i ih =>
      have different : i ∉ done := by
        intro inside
        exact (List.disjoint_of_nodup_append nodup) inside (by simp)
      have apart : (done.flatMap chain).Disjoint (chain i) := by
        intro a before here
        obtain ⟨j, member, inside⟩ := List.mem_flatMap.mp before
        exact different (rep.chain_apart here inside ▸ member)
      rw [List.foldlM_append, ih nodup.of_append_left]
      simp only [Option.bind_eq_bind, Option.bind_some, List.foldlM_cons, List.foldlM_nil,
        if_neg different]
      rw [Cache.clearChain_spec (chain i)]
      · have table : Function.update (fun j => if j ∈ done then none else s.hashTable j) i none =
            fun j => if j ∈ done ++ [i] then none else s.hashTable j := by
          funext j
          simp only [Function.update_apply, List.mem_append, List.mem_singleton]
          split_ifs <;> simp_all
        rw [List.flatMap_append, List.flatMap_singleton, ← s.freed_append apart, ← table]
        rfl
      · exact path_congr (fun b member => s.freed_keeps (·.bind (·.next)) fun inside =>
          apart inside member) (rep.chains i)
      · exact rep.chain_nodup i
      · intro b member
        obtain ⟨e, found, -⟩ := rep.chain_live member
        rw [Cache.entry, s.freed_keeps (Option.map CacheModule.toEntry) fun inside =>
          apart inside member]
        exact Option.ne_none_iff_exists'.mpr ⟨e, found⟩
      · exact Nat.lt_succ_of_le (rep.chain_length_le_brk i)

theorem clear (rep : Represents s σ chain) :
    ∃ u, s.cacheClear = some u ∧ Refines u σ.clear := by
  have perm : (σ.items.map Item.addr).Perm ((List.finRange hashTableSize).flatMap chain) := by
    refine (List.perm_ext_iff_of_nodup σ.distinct ?_).mpr ?_
    · refine List.nodup_flatMap.mpr ⟨fun h _ => rep.chain_nodup h, ?_⟩
      refine (List.nodup_finRange _).imp ?_
      intro i j different a left right
      exact different (rep.chain_apart left right)
    · intro a
      simp only [List.mem_flatMap, List.mem_finRange, true_and, List.mem_map, rep.hashed]
      constructor
      · intro given
        obtain ⟨x, inside, rfl⟩ := given
        exact ⟨_, x.entry, inside, rfl⟩
      · intro given
        obtain ⟨h, e, inside, -⟩ := given
        exact ⟨_, inside, rfl⟩
  have emptied := rep.clearChains (List.finRange hashTableSize) (List.nodup_finRange _)
  simp only [List.mem_finRange, ↓reduceIte] at emptied
  generalize (List.finRange hashTableSize).flatMap chain = all at perm emptied
  have cleared : s.cacheClear = some { s.freed all with
      hashTable := fun _ => none, listHead := none, listTail := none, cacheSize := 0 } := by
    rw [Cache.cacheClear, emptied, Option.bind_eq_bind, Option.bind_some]
  have unlinked : all.foldl (fun d a => (s.entry a).elim d d.forget) s.disk = σ.clear.disk := by
    have commutes : RightCommutative fun (d : Disk) a => (s.entry a).elim d d.forget := by
      constructor
      intro d a b
      cases s.entry a <;> cases s.entry b <;> simp [Disk.forget_comm]
    rw [← perm.foldl_eq, List.foldl_map, rep.disk]
    apply List.foldl_ext
    intro d x member
    rw [(rep.entries x.addr x.entry).mpr member]
    rfl
  refine ⟨_, cleared, fun _ => [], ?_, ?_, ?_, ?_, ?_, rfl, rep.brk, rep.policy, rep.cacheDir,
    unlinked⟩
  · exact ⟨rfl, rfl, List.nodup_nil⟩
  · intro a e
    have gone : ∀ n, s.heap a = some n → a ∈ all := by
      intro n read
      exact perm.mem_iff.mp (rep.addr_mem.mpr (by simp [Cache.entry_some read]))
    simp only [Cache.entry, Cache.freed, Store.clear, List.not_mem_nil, iff_false]
    split
    · simp
    · rename_i kept
      cases read : s.heap a with
      | none => simp
      | some n => exact absurd (gone n read) kept
  · intro h
    simp [PointerPath]
  · simp
  · simp [Store.clear]

end Represents

theorem Refines.findLocked {s : Cache} {σ : Store} (refines : Refines s σ) (url : Bytes)
    (now : Int) :
    ∃ u, s.findLocked url now = some (u, (σ.find url now).2) ∧ Refines u (σ.find url now).1 := by
  obtain ⟨chain, rep⟩ := refines
  cases found : σ.newest url with
  | none =>
      refine ⟨s, ?_, chain, ?_⟩
      · simp [Cache.findLocked, rep.lookup_missed found, Store.find, found]
      · simpa [Store.find, found] using rep
  | some x =>
      obtain ⟨inside, -⟩ := σ.newest_mem found
      obtain ⟨l, r, -, walked⟩ := rep.lookup_found found
      obtain ⟨n, read, same⟩ := Cache.heap_of_entry ((rep.entries _ _).mpr inside)
      by_cases old : x.entry.expired now = true
      · refine ⟨s, ?_, chain, ?_⟩
        · simp [Cache.findLocked, walked, read, same, Store.find, found, old]
        · simpa [Store.find, found, old] using rep
      · obtain ⟨t, touched, repT⟩ := rep.touch inside now
        have policy : t.policy = σ.policy := repT.policy
        by_cases lru : σ.policy = .lru
        · have stays : (⟨x.addr, x.entry.touch now⟩ : Item) ∈
              (σ.modify x.addr (·.touch now)).items :=
            σ.mem_modify.mpr ⟨x.entry, inside, by simp⟩
          obtain ⟨u, moved, repU⟩ := repT.listMoveToEnd stays
          refine ⟨u, ?_, chain, ?_⟩
          · simp [Cache.findLocked, walked, read, same, Store.find, found, old, touched, policy, lru,
              moved]
          · simpa [Store.find, found, old, Store.use, lru] using repU
        · refine ⟨t, ?_, chain, ?_⟩
          · simp [Cache.findLocked, walked, read, same, Store.find, found, old, touched, policy, lru]
          · simpa [Store.find, found, old, Store.use, lru] using repT

theorem Refines.evictLoop {s : Cache} {σ : Store} (refines : Refines s σ) (maxCacheSize size : Nat)
    (fuel : Nat) {n : Nat} (enough : σ.items.length < fuel) (room : σ.items.length ≤ n) :
    ∃ u, Cache.evictLoop maxCacheSize size fuel s = some u ∧
      Refines u (σ.evictLoop maxCacheSize size n) := by
  induction fuel generalizing s σ n with
  | zero => simp at enough
  | succ fuel ih =>
      obtain ⟨chain, rep⟩ := refines
      have empty : s.listHead ≠ none ↔ σ.items ≠ [] := by
        rw [show s.listHead = _ from rep.list.head_eq]
        simp
      have full : (s.cacheSize + size) % 2 ^ 64 > maxCacheSize ↔
          fits maxCacheSize size σ.total = false := by
        rw [rep.cacheSize, fits]
        simp
      by_cases again : fits maxCacheSize size σ.total = false ∧ σ.items ≠ []
      · obtain ⟨x, chosen⟩ := Option.ne_none_iff_exists'.mp (mt σ.victim_none.mp again.2)
        have shorter : (σ.remove x).items.length + 1 = σ.items.length := by
          have member := σ.victim_mem chosen
          rw [σ.remove_items member, List.length_erase_of_mem member]
          have := List.length_pos_of_mem member
          omega
        obtain ⟨n, rfl⟩ : ∃ k, n = k + 1 := ⟨n - 1, by omega⟩
        obtain ⟨t, removed, refinesT⟩ := rep.removeCache
        rw [chosen] at refinesT
        obtain ⟨u, looped, result⟩ := ih refinesT (n := n)
          (by rw [Option.elim_some]; omega) (by rw [Option.elim_some]; omega)
        refine ⟨u, ?_, by rwa [Store.evictLoop_step n again.1 chosen]⟩
        rw [Cache.evictLoop, if_pos ⟨full.mpr again.1, empty.mpr again.2⟩]
        simp [removed, looped]
      · refine ⟨s, ?_, chain, ?_⟩
        · rw [Cache.evictLoop, if_neg fun h => again ⟨full.mp h.1, empty.mp h.2⟩]
        · rw [Store.evictLoop_done n]
          · exact rep
          · cases fit : fits maxCacheSize size σ.total with
            | true => exact Or.inl rfl
            | false => exact Or.inr (by simpa [fit] using again)

end ProxyServer
