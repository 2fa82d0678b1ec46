import ProxyServer.Cache.Memory
import ProxyServer.Cache.Store

/-!
# Heaps that hold a store

`Represents s σ chain`: the list of `s` runs through the items of `σ` in order, and the hash chain
`h` through the addresses `chain h`, the latest insertion first.
-/

namespace ProxyServer
open Lib

structure Represents (s : Cache) (σ : Store) (chain : Fin hashTableSize → List Addr) : Prop where
  list : s.links.Holds (σ.items.map Item.addr)
  entries : ∀ a e, s.entry a = some e ↔ ⟨a, e⟩ ∈ σ.items
  chains : ∀ h, PointerPath s.chainNext (s.hashTable h) (chain h)
  latestFirst : ∀ h, (chain h).Pairwise (· > ·)
  hashed : ∀ h a, a ∈ chain h ↔ ∃ e, ⟨a, e⟩ ∈ σ.items ∧ hashUrl e.url = h
  cacheSize : s.cacheSize = σ.total % 2 ^ 64
  brk : s.brk = σ.brk
  policy : s.policy = σ.policy
  cacheDir : s.cacheDir = σ.cacheDir
  disk : s.disk = σ.disk

def Refines (s : Cache) (σ : Store) : Prop := ∃ chain, Represents s σ chain

namespace Represents

variable {s : Cache} {σ : Store} {chain : Fin hashTableSize → List Addr}

theorem addr_mem (rep : Represents s σ chain) {a : Addr} :
    a ∈ σ.items.map Item.addr ↔ s.entry a ≠ none := by
  rw [Option.ne_none_iff_exists', List.mem_map]
  constructor
  · intro given
    obtain ⟨x, member, rfl⟩ := given
    exact ⟨x.entry, (rep.entries x.addr x.entry).mpr member⟩
  · intro given
    obtain ⟨e, found⟩ := given
    exact ⟨⟨a, e⟩, (rep.entries a e).mp found, rfl⟩

theorem chain_nodup (rep : Represents s σ chain) (h : Fin hashTableSize) : (chain h).Nodup :=
  (rep.latestFirst h).imp fun greater => Nat.ne_of_gt greater

theorem chain_live (rep : Represents s σ chain) {h : Fin hashTableSize} {a : Addr}
    (member : a ∈ chain h) : ∃ e, s.entry a = some e ∧ ⟨a, e⟩ ∈ σ.items ∧ hashUrl e.url = h := by
  obtain ⟨e, inside, hash⟩ := (rep.hashed h a).mp member
  exact ⟨e, (rep.entries a e).mpr inside, inside, hash⟩

theorem length_le_brk (rep : Represents s σ chain) : σ.items.length ≤ s.brk := by
  have bounded : σ.items.map Item.addr ⊆ List.range s.brk := by
    intro a member
    obtain ⟨x, inside, rfl⟩ := List.mem_map.mp member
    rw [List.mem_range, rep.brk]
    exact σ.allocated x inside
  simpa using (List.subperm_of_subset σ.distinct bounded).length_le

theorem chain_length_le_brk (rep : Represents s σ chain) (h : Fin hashTableSize) :
    (chain h).length ≤ s.brk := by
  have bounded : chain h ⊆ List.range s.brk := by
    intro a member
    obtain ⟨e, -, inside, -⟩ := rep.chain_live member
    rw [List.mem_range, rep.brk]
    exact σ.allocated _ inside
  simpa using (List.subperm_of_subset (rep.chain_nodup h) bounded).length_le

theorem follow_path (rep : Represents s σ chain) {p : Option Addr} {xs : List Item} {fuel : Nat}
    (path : PointerPath s.links.next p (xs.map Item.addr)) (known : xs ⊆ σ.items)
    (enough : xs.length ≤ fuel) : s.follow fuel p = xs := by
  induction xs generalizing p fuel with
  | nil =>
      rw [show p = none from path]
      cases fuel <;> rfl
  | cons x xs ih =>
      cases fuel with
      | zero => simp at enough
      | succ fuel =>
          have live := (rep.entries x.addr x.entry).mpr (known (by simp))
          obtain ⟨n, read, same⟩ := Cache.heap_of_entry live
          have rest : PointerPath s.links.next n.nextLru (xs.map Item.addr) := by
            rw [← Cache.links_next read]
            exact path.2
          rw [path.1, Cache.follow, read]
          simp only [same]
          rw [ih rest (fun y member => known (by simp [member])) (by simpa using enough)]

theorem items (rep : Represents s σ chain) : s.items = σ.items :=
  rep.follow_path rep.list.forward (List.Subset.refl _) rep.length_le_brk

theorem walkChain_found (rep : Represents s σ chain) {t : Cache} (same : Cache.SameChains s t)
    {h : Fin hashTableSize} (stop : CacheModule → Bool) {l r : List Addr} {a : Addr}
    {n : CacheModule} (split : chain h = l ++ a :: r) (read : t.heap a = some n)
    (stops : stop n = true) (passes : ∀ b ∈ l, ∀ m, t.heap b = some m → stop m = false) :
    t.walkChain h stop = some (l.getLast?, some a) := by
  have path := rep.chains h
  rw [split, ← same.hashTable, ← same.chainNext] at path
  have enough := rep.chain_length_le_brk h
  rw [Cache.walkChain, walk_found path _ read stops, Option.or_none]
  · simp only [split, List.length_append, List.length_cons] at enough
    rw [same.brk]
    omega
  · intro b member
    obtain ⟨e, live, -⟩ := rep.chain_live (h := h) (by simp [split, member] : b ∈ chain h)
    rw [← same.entry] at live
    obtain ⟨m, loaded, -⟩ := Cache.heap_of_entry live
    exact ⟨m, loaded, passes b member m loaded⟩

theorem walkChain_missed (rep : Represents s σ chain) {h : Fin hashTableSize}
    {stop : CacheModule → Bool}
    (passes : ∀ b ∈ chain h, ∀ m, s.heap b = some m → stop m = false) :
    s.walkChain h stop = some ((chain h).getLast?, none) := by
  have enough := rep.chain_length_le_brk h
  rw [Cache.walkChain, walk_missed (rep.chains h) _ (by omega), Option.or_none]
  intro b member
  obtain ⟨e, live, -⟩ := rep.chain_live member
  obtain ⟨m, loaded, -⟩ := Cache.heap_of_entry live
  exact ⟨m, loaded, passes b member m loaded⟩

theorem chain_newest (rep : Represents s σ chain) {url : Bytes} {x : Item}
    (found : σ.newest url = some x) :
    ∃ l r, chain (hashUrl url) = l ++ x.addr :: r ∧
      ∀ b ∈ l, ∀ m, s.heap b = some m → m.url ≠ url := by
  obtain ⟨inside, url_eq⟩ := σ.newest_mem found
  have member : x.addr ∈ chain (hashUrl url) :=
    (rep.hashed _ _).mpr ⟨x.entry, inside, by rw [url_eq]⟩
  obtain ⟨l, r, split⟩ := List.append_of_mem member
  refine ⟨l, r, split, ?_⟩
  intro b before m read same
  have later : b > x.addr := by
    have order := rep.latestFirst (hashUrl url)
    rw [split, List.pairwise_append] at order
    exact order.2.2 b before x.addr (by simp)
  have stored := (rep.entries b m.toEntry).mp (Cache.entry_some read)
  exact absurd (σ.newest_max found stored same) (Nat.not_le.mpr later)

theorem lookup_missed (rep : Represents s σ chain) {url : Bytes} (missing : σ.newest url = none) :
    s.walkChain (hashUrl url) (fun n => n.url = url) =
      some ((chain (hashUrl url)).getLast?, none) := by
  apply rep.walkChain_missed
  intro b _ m read
  have stored := (rep.entries b m.toEntry).mp (Cache.entry_some read)
  simpa using σ.newest_none.mp missing _ stored

theorem lookup_found (rep : Represents s σ chain) {url : Bytes} {x : Item}
    (found : σ.newest url = some x) :
    ∃ l r, chain (hashUrl url) = l ++ x.addr :: r ∧
      s.walkChain (hashUrl url) (fun n => n.url = url) = some (l.getLast?, some x.addr) := by
  obtain ⟨l, r, split, others⟩ := rep.chain_newest found
  obtain ⟨inside, url_eq⟩ := σ.newest_mem found
  obtain ⟨n, read, same⟩ := Cache.heap_of_entry ((rep.entries _ _).mpr inside)
  refine ⟨l, r, split, rep.walkChain_found (.refl s) _ split read ?_ ?_⟩
  · simpa [same] using url_eq
  · intro b before m loaded
    simpa using others b before m loaded

structure Detached (s t : Cache) (h : Fin hashTableSize) (before : Option Addr) (a : Addr) :
    Prop where
  links : t.links = s.links.remove a
  entry : t.entry = s.entry
  hashTable : t.hashTable = Function.update s.hashTable h
    (relink (s.hashTable h) s.chainNext before (s.chainNext a)).1
  chainNext : t.chainNext = (relink (s.hashTable h) s.chainNext before (s.chainNext a)).2
  brk : t.brk = s.brk
  cacheSize : t.cacheSize = s.cacheSize
  policy : t.policy = s.policy
  cacheDir : t.cacheDir = s.cacheDir
  disk : t.disk = s.disk

theorem discard_eq {t : Cache} {a : Addr} {e : Entry} (live : t.entry a = some e) :
    ∃ u, t.discard a = some u ∧ u.entry = Function.update t.entry a none ∧
      u.links = { t.links with
        next := Function.update t.links.next a none
        prev := Function.update t.links.prev a none } ∧
      u.chainNext = Function.update t.chainNext a none ∧ u.hashTable = t.hashTable ∧
      u.cacheSize = (t.cacheSize + 2 ^ 64 - elementSize e.length e.url) % 2 ^ 64 ∧
      u.brk = t.brk ∧ u.policy = t.policy ∧ u.cacheDir = t.cacheDir ∧ u.disk = t.disk.forget e := by
  obtain ⟨n, read, same⟩ := Cache.heap_of_entry live
  have freed {β : Type} (field : Option CacheModule → β) :
      (fun b => field (Function.update t.heap a none b)) =
        Function.update (fun b => field (t.heap b)) a (field none) := by
    funext b
    by_cases here : b = a
    · subst here
      simp
    · simp [Function.update_of_ne here]
  have done : t.discard a = some (Cache.release
      { t with cacheSize := (t.cacheSize + 2 ^ 64 - elementSize n.length n.url) % 2 ^ 64 } a n) := by
    simp [Cache.discard, read]
  refine ⟨_, done, freed (Option.map CacheModule.toEntry), ?_, freed (·.bind (·.next)), rfl, ?_,
    rfl, rfl, rfl, ?_⟩
  · exact Links.ext rfl rfl (freed (·.bind (·.nextLru))) (freed (·.bind (·.prevLru)))
  · rw [← same]
    rfl
  · rw [← same]
    rfl

theorem chain_apart (rep : Represents s σ chain) {h h' : Fin hashTableSize} {a : Addr}
    (left : a ∈ chain h) (right : a ∈ chain h') : h = h' := by
  obtain ⟨e, inside, rfl⟩ := (rep.hashed h a).mp left
  obtain ⟨f, also, rfl⟩ := (rep.hashed h' a).mp right
  rw [σ.entry_unique inside also]

theorem discard (rep : Represents s σ chain) {t : Cache} {x : Item} {l r : List Addr}
    (member : x ∈ σ.items) (split : chain (hashUrl x.entry.url) = l ++ x.addr :: r)
    (out : Detached s t (hashUrl x.entry.url) l.getLast? x.addr) :
    ∃ u, t.discard x.addr = some u ∧
      Represents u (σ.remove x) fun h => (chain h).erase x.addr := by
  have live : t.entry x.addr = some x.entry := by
    rw [out.entry]
    exact (rep.entries _ _).mpr member
  obtain ⟨u, done, entry, links, chainNext, hashTable, cacheSize, brk, policy, cacheDir, disk⟩ :=
    discard_eq live
  refine ⟨u, done, ?_, ?_, ?_, ?_, ?_, ?_, ?_, ?_, ?_, ?_⟩
  · -- the list
    obtain ⟨L, R, items⟩ := List.append_of_mem member
    have gone : x.addr ∉ (σ.remove x).items.map Item.addr := by simp [Store.remove]
    have holds := rep.list
    rw [items, List.map_append, List.map_cons] at holds
    have removed := holds.remove
    rw [← List.map_append, ← σ.remove_split items, ← out.links] at removed
    apply removed.congr u.links <;> rw [links]
    all_goals
      intro b inside
      exact Function.update_of_ne (ne_of_mem_of_not_mem inside gone) _ _
  · -- the entries
    intro a e
    rw [entry, out.entry, σ.mem_remove, ← rep.entries]
    by_cases same : a = x.addr
    · simp [same]
    · simp [same]
  · -- the hash chains
    intro h
    rw [hashTable, out.hashTable, chainNext, out.chainNext]
    have nodup := rep.chain_nodup (hashUrl x.entry.url)
    rw [split] at nodup
    by_cases here : h = hashUrl x.entry.url
    · subst here
      have apart := (List.nodup_middle.mp nodup).notMem
      have path := rep.chains (hashUrl x.entry.url)
      rw [split] at path
      rw [Function.update_self, split, List.erase_append_right _ fun h => apart (by simp [h]),
        List.erase_cons_head]
      apply path_congr _ (relink_path path nodup)
      intro b inside
      exact Function.update_of_ne (ne_of_mem_of_not_mem inside apart) _ _
    · have elsewhere : ∀ b ∈ chain h, b ∉ chain (hashUrl x.entry.url) :=
        fun b inside also => here (rep.chain_apart inside also)
      have absent : x.addr ∉ chain h := fun inside => elsewhere _ inside (by simp [split])
      rw [Function.update_of_ne here, List.erase_of_not_mem absent]
      apply path_congr _ (rep.chains h)
      intro b inside
      rw [Function.update_of_ne (ne_of_mem_of_not_mem inside absent)]
      apply relink_elsewhere
      intro c before same
      obtain rfl := same
      exact elsewhere b inside (by simp [split, List.mem_of_getLast? before])
  · intro h
    exact (rep.latestFirst h).sublist List.erase_sublist
  · intro h a
    rw [(rep.chain_nodup h).mem_erase_iff, rep.hashed]
    constructor
    · intro given
      obtain ⟨different, e, inside, hash⟩ := given
      exact ⟨e, σ.mem_remove.mpr ⟨inside, different⟩, hash⟩
    · intro given
      obtain ⟨e, inside, hash⟩ := given
      obtain ⟨inside, different⟩ := σ.mem_remove.mp inside
      exact ⟨different, e, inside, hash⟩
  · have bound : elementSize x.entry.length x.entry.url < 2 ^ 64 := Nat.mod_lt _ (by decide)
    rw [cacheSize, out.cacheSize, rep.cacheSize, σ.remove_total member, weight]
    omega
  · rw [brk, out.brk, rep.brk]
    rfl
  · rw [policy, out.policy, rep.policy]
    rfl
  · rw [cacheDir, out.cacheDir, rep.cacheDir]
    rfl
  · rw [disk, out.disk, rep.disk]
    rfl

end Represents
end ProxyServer
