import ProxyServer.Cache.Operations

namespace ProxyServer
open Lib

namespace Cache

def share (s : Cache) (a : Addr) : Int :=
  (s.entry a).elim 0 fun e => e.length + e.url.length + sizeofCacheModule + 1

structure DoublyLinked (s : Cache) (order : List Addr) : Prop where
  forward : PointerPath s.links.next s.listHead order
  last : s.listTail = order.getLast?
  distinct : order.Nodup
  headPrev : ∀ a, s.listHead = some a → s.links.prev a = none
  tailNext : ∀ a, s.listTail = some a → s.links.next a = none
  nextPrev : ∀ a ∈ order, ∀ b, s.links.next a = some b → s.links.prev b = some a
  empty : s.listHead = none ↔ s.listTail = none

/-- The nodes `order` are allocated and are those of the hash chains, each once and in the chain
of its URL. -/
structure Hashed (s : Cache) (order : List Addr) : Prop where
  live : ∀ a ∈ order, ∃ e, s.entry a = some e
  chains : ∃ chain : Fin hashTableSize → List Addr, ∀ h,
    PointerPath s.chainNext (s.hashTable h) (chain h) ∧ (chain h).Nodup ∧
      ∀ a, a ∈ chain h ↔ a ∈ order ∧ ∃ e, s.entry a = some e ∧ hashUrl e.url = h

def WellFormed (s : Cache) : Prop :=
  ∃ order, s.DoublyLinked order ∧ s.Hashed order ∧
    (s.cacheSize : Int) ≡ (order.map s.share).sum [ZMOD 2 ^ 64]

end Cache

theorem Represents.doublyLinked {s : Cache} {σ : Store} {chain : Fin hashTableSize → List Addr}
    (rep : Represents s σ chain) : s.DoublyLinked (σ.items.map Item.addr) where
  forward := rep.list.forward
  last := rep.list.tail_eq
  distinct := rep.list.nodup
  headPrev a head := rep.list.head_prev head
  tailNext a tail := rep.list.tail_next tail
  nextPrev a member b next := rep.list.next_prev member next
  empty := by
    rw [show s.listHead = _ from rep.list.head_eq, show s.listTail = _ from rep.list.tail_eq]
    simp

theorem Represents.wellFormed {s : Cache} {σ : Store} {chain : Fin hashTableSize → List Addr}
    (rep : Represents s σ chain) : s.WellFormed := by
  refine ⟨σ.items.map Item.addr, rep.doublyLinked, ?_, ?_⟩
  · constructor
    · intro a member
      exact Option.ne_none_iff_exists'.mp (rep.addr_mem.mp member)
    · refine ⟨chain, fun h => ⟨rep.chains h, rep.chain_nodup h, fun a => ?_⟩⟩
      constructor
      · intro member
        obtain ⟨e, live, inside, hash⟩ := rep.chain_live member
        exact ⟨List.mem_map_of_mem inside, e, live, hash⟩
      · intro given
        obtain ⟨-, e, live, hash⟩ := given
        exact (rep.hashed h a).mpr ⟨e, (rep.entries a e).mp live, hash⟩
  · -- both sides are sums over the items, and the terms agree modulo the word size
    have terms : ∀ xs : List Item, xs ⊆ σ.items →
        ((xs.map weight).sum : Int) ≡ ((xs.map Item.addr).map s.share).sum [ZMOD 2 ^ 64] := by
      intro xs known
      induction xs with
      | nil => exact Int.ModEq.rfl
      | cons x xs ih =>
          have live := (rep.entries x.addr x.entry).mpr (known (by simp))
          have one : (weight x : Int) ≡ s.share x.addr [ZMOD 2 ^ 64] := by
            simp only [weight, elementSize, toSize, Cache.share, live, Option.elim_some,
              Int.ModEq]
            omega
          simp only [List.map_cons, List.sum_cons, Nat.cast_add]
          exact one.add (ih fun y inside => known (by simp [inside]))
    have counter : (s.cacheSize : Int) ≡ (σ.total : Int) [ZMOD 2 ^ 64] := by
      rw [rep.cacheSize]
      simp [Int.ModEq]
    exact counter.trans (terms σ.items (List.Subset.refl _))

/-- From `Cache_init` on, no sequence of operations fails and each leaves the cache well formed. -/
theorem reachable_wellFormed (policy : CacheEvictionPolicy) (cacheDir : Bytes) (disk : Disk)
    (ops : List Op) :
    ∃ s, run Cache.step (Cache.cacheInit policy cacheDir disk) ops = some s ∧ s.WellFormed := by
  obtain ⟨s, reached, chain, rep⟩ := (Refines.init policy cacheDir disk).run ops
  exact ⟨s, reached, rep.wellFormed⟩

end ProxyServer
