import ProxyServer.Cache.WellFormed

namespace ProxyServer
open Lib

def IsVictim (policy : CacheEvictionPolicy) (items : List Item) (x : Item) : Prop :=
  match policy with
  | .lru => items.head? = some x
  | .lfu => FirstLeast (·.entry.accessCount) items x
  | .ttl => FirstLeast (·.entry.expiresAt) items x

theorem Store.victim_isVictim {σ : Store} {x : Item} (chosen : σ.victim = some x) :
    IsVictim σ.policy σ.items x := by
  obtain ⟨first, rest, items⟩ := List.exists_cons_of_ne_nil (List.ne_nil_of_mem (σ.victim_mem chosen))
  rw [victim, items, rank_head, Option.some.injEq] at chosen
  have least := firstLeast_foldl (itemKey σ.policy) first rest
  rw [chosen, ← items] at least
  unfold IsVictim
  cases policy : σ.policy with
  | lru =>
      obtain ⟨before, after, split, earlier, -⟩ := least
      -- All keys are equal, so nothing stands before the first of the least.
      have alone : before = [] := by
        rw [List.eq_nil_iff_forall_not_mem]
        intro y member
        simpa [itemKey, Cache.victimKey, policy] using earlier y member
      simp [split, alone]
  | lfu =>
      rw [policy] at least
      exact least
  | ttl =>
      rw [policy] at least
      exact least

structure Cache.Without (s t : Cache) (x : Item) (chain : Fin hashTableSize → List Addr) : Prop where
  list : s.DoublyLinked (s.items.map Item.addr)
  live : ∀ a e, s.entry a = some e ↔ ⟨a, e⟩ ∈ s.items
  chains : ∀ h, PointerPath s.chainNext (s.hashTable h) (chain h) ∧ (chain h).Nodup
  hashed : ∀ h a, a ∈ chain h ↔ ∃ e, s.entry a = some e ∧ hashUrl e.url = h
  entries : t.entry = Function.update s.entry x.addr none
  items : t.items = s.items.erase x
  listAfter : t.DoublyLinked ((s.items.map Item.addr).erase x.addr)
  chainsAfter : ∀ h, PointerPath t.chainNext (t.hashTable h) ((chain h).erase x.addr)

theorem Represents.without {s t : Cache} {σ : Store} {chain : Fin hashTableSize → List Addr}
    {x : Item} (rep : Represents s σ chain) (member : x ∈ σ.items)
    (after : Represents t (σ.remove x) fun h => (chain h).erase x.addr) :
    s.Without t x chain := by
  have addresses : (σ.remove x).items.map Item.addr = (σ.items.map Item.addr).erase x.addr := by
    obtain ⟨l, r, split⟩ := List.append_of_mem member
    have distinct := σ.distinct
    rw [split, List.map_append, List.map_cons] at distinct
    have apart := (List.nodup_middle.mp distinct).notMem
    rw [σ.remove_split split, split, List.map_append, List.map_append, List.map_cons,
      List.erase_append_right _ fun inside => apart (by simp [inside]), List.erase_cons_head]
  constructor
  · rw [rep.items]
    exact rep.doublyLinked
  · intro a e
    rw [rep.items]
    exact rep.entries a e
  · exact fun h => ⟨rep.chains h, rep.chain_nodup h⟩
  · intro h a
    simp only [rep.hashed, rep.entries]
  · funext a
    apply Option.ext
    intro e
    rw [after.entries, σ.mem_remove, ← rep.entries]
    by_cases same : a = x.addr
    · simp [same]
    · simp [same]
  · rw [after.items, rep.items, σ.remove_items member]
  · rw [rep.items, ← addresses]
    exact after.doublyLinked
  · exact after.chains

/-- In a reachable cache that is not empty, `RemoveCache` takes out the victim of the policy. -/
theorem removeCache_takes_victim {policy : CacheEvictionPolicy} {cacheDir : Bytes} {disk : Disk}
    {ops : List Op} {s : Cache}
    (reached : run Cache.step (Cache.cacheInit policy cacheDir disk) ops = some s)
    (nonempty : s.listHead ≠ none) :
    ∃ x t chain, s.removeCache = some t ∧ IsVictim s.policy s.items x ∧ s.Without t x chain := by
  obtain ⟨σ, chain, rep⟩ := Refines.of_run reached
  have some_item : σ.victim ≠ none := by
    intro missing
    apply nonempty
    have head : s.listHead = _ := rep.list.head_eq
    rw [head, σ.victim_none.mp missing]
    rfl
  obtain ⟨x, chosen⟩ := Option.ne_none_iff_exists'.mp some_item
  obtain ⟨t, removed, after⟩ := rep.removeVictim chosen
  refine ⟨x, t, chain, removed, ?_, rep.without (σ.victim_mem chosen) after⟩
  rw [rep.items, rep.policy]
  exact Store.victim_isVictim chosen

theorem removeCache_takes_victim_two :
    ∃ s, run Cache.step (Cache.cacheInit .lfu [] .empty)
        [.add (sampleCall "u" "1"), .add (sampleCall "v" "2")] = some s ∧
      ∃ x t chain, s.removeCache = some t ∧ IsVictim s.policy s.items x ∧ s.Without t x chain := by
  have value : ((run Cache.step (Cache.cacheInit .lfu [] .empty)
      [.add (sampleCall "u" "1"), .add (sampleCall "v" "2")]).bind (·.listHead)).isSome = true := by
    decide +kernel
  obtain ⟨a, head⟩ := Option.isSome_iff_exists.mp value
  obtain ⟨s, reached, head⟩ := Option.bind_eq_some_iff.mp head
  exact ⟨s, reached, removeCache_takes_victim reached (by simp [head])⟩

end ProxyServer
