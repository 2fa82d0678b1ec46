import ProxyServer.Cache.Entries

namespace ProxyServer
open Lib

def Entry.bytes (e : Entry) : Nat := e.length.toNat + e.url.length + sizeofCacheModule + 1

def Entry.Sized (e : Entry) : Prop := 0 ≤ e.length ∧ e.length < 2 ^ 31 ∧ e.url.length < 2 ^ 63

theorem Entry.Sized.weight {a : Addr} {e : Entry} (sized : e.Sized) : weight ⟨a, e⟩ = e.bytes := by
  obtain ⟨positive, small, url⟩ := sized
  simp only [ProxyServer.weight, elementSize, toSize, Entry.bytes, sizeofCacheModule]
  omega

namespace Cache

def AddCall.Sized (c : AddCall) : Prop :=
  0 ≤ c.size ∧ c.size < 2 ^ 31 ∧ c.url.length < 2 ^ 63 ∧ c.maxCacheSize < 2 ^ 63 ∧
    c.maxElementSize < 2 ^ 63

def load (s : Cache) : Nat := (s.items.map fun x => x.entry.bytes).sum

def evictStates (maxCacheSize size : Nat) : Nat → Cache → List Cache
  | 0, _ => []
  | fuel + 1, s =>
      s :: if (s.cacheSize + size) % 2 ^ 64 > maxCacheSize ∧ s.listHead ≠ none then
        s.removeCache.elim [] (evictStates maxCacheSize size fuel)
      else []

def Removable (s : Cache) : Prop :=
  ∀ a n, s.heap a = some n → elementSize n.length n.url ≤ s.cacheSize

structure Bounded (t : Cache) (op : Op) (u : Cache) (reply : Reply) : Prop where
  counter : u.cacheSize = u.load
  removable : t.Removable
  added : ∀ c, op = .add c → reply = .added 1 → u.load ≤ c.maxCacheSize
  others : (∀ c, op = .add c → reply ≠ .added 1) → u.load ≤ t.load
  terminates : ∀ c, op = .add c →
    ∃ v, evictLoop c.maxCacheSize c.elementSize (t.items.length + 1) t = some v
  evictions : ∀ c, op = .add c → c.refused = false →
    ∀ v ∈ evictStates c.maxCacheSize c.elementSize (t.items.length + 1) t,
      v.cacheSize + c.elementSize < 2 ^ 64 ∧ v.Removable

end Cache

namespace Store

variable {σ τ : Store}

structure Counted (σ : Store) : Prop where
  sized : ∀ x ∈ σ.items, x.entry.Sized
  total : σ.total < 2 ^ 63

theorem Counted.within (counted : σ.Counted) (within : Within τ σ) : τ.Counted where
  sized x member := by
    obtain ⟨y, inside, same⟩ := within.mem member
    have sized : y.fixed.entry.Sized := counted.sized y inside
    rwa [same] at sized
  total := within.total_le.trans_lt counted.total

theorem weight_le_total {x : Item} (member : x ∈ σ.items) : weight x ≤ σ.total :=
  List.single_le_sum (by simp) _ (List.mem_map_of_mem member)

theorem Counted.added (counted : σ.Counted) {c : Cache.AddCall} (sized : c.Sized)
    (added : (σ.add c).2 = 1) :
    (σ.add c).1.Counted ∧ (σ.add c).1.total ≤ c.maxCacheSize := by
  rcases σ.add_cases c with ⟨failed, -⟩ | ⟨-, accepted, fit, -, path, file, e, made, items⟩
  · rw [failed] at added
    cases added
  obtain ⟨positive, small, address, cacheLimit, elementLimit⟩ := sized
  obtain ⟨url, length, -⟩ := Cache.AddCall.entry_shape made
  have kept := counted.within (σ.evict_within c.maxCacheSize c.elementSize)
  have new : weight ⟨σ.brk, e⟩ = c.elementSize := by
    rw [weight, url, length, Cache.AddCall.elementSize]
  have total : (σ.add c).1.total =
      (σ.evict c.maxCacheSize c.elementSize).total + c.elementSize := by
    rw [Store.total, items, List.map_append, List.sum_append, List.map_singleton, new,
      List.sum_singleton, Store.total]
  have element : c.elementSize ≤ c.maxElementSize := by
    simp only [Cache.AddCall.refused, Bool.or_eq_false_iff, decide_eq_false_iff_not] at accepted
    omega
  have room := kept.total
  have bound : (σ.add c).1.total ≤ c.maxCacheSize := by
    simp only [fits, decide_eq_true_eq] at fit
    omega
  refine ⟨⟨?_, bound.trans_lt cacheLimit⟩, bound⟩
  intro x member
  rw [items, List.mem_append, List.mem_singleton] at member
  rcases member with old | rfl
  · exact kept.sized x old
  · rw [Entry.Sized, url, length]
    exact ⟨positive, small, address⟩

theorem Counted.exec (counted : σ.Counted) {op : Op} (sized : ∀ c, op = .add c → c.Sized) :
    (σ.exec op).1.Counted := by
  by_cases added : ∃ c, op = .add c ∧ (σ.add c).2 = 1
  · obtain ⟨c, rfl, success⟩ := added
    exact (counted.added (sized c rfl) success).1
  · exact counted.within (σ.exec_within fun c same success => added ⟨c, same, success⟩)

end Store

namespace Refines

variable {s : Cache} {σ : Store}

theorem load_eq (refines : Refines s σ) (counted : σ.Counted) : s.load = σ.total := by
  obtain ⟨chain, rep⟩ := refines
  rw [Cache.load, rep.items, Store.total]
  congr 1
  exact List.map_congr_left fun x member => (counted.sized x member).weight.symm

theorem counter_eq (refines : Refines s σ) (counted : σ.Counted) : s.cacheSize = σ.total := by
  obtain ⟨chain, rep⟩ := refines
  have := counted.total
  rw [rep.cacheSize]
  omega

theorem removable (refines : Refines s σ) (counted : σ.Counted) : s.Removable := by
  intro a n live
  rw [refines.counter_eq counted]
  obtain ⟨chain, rep⟩ := refines
  exact Store.weight_le_total ((rep.entries a n.toEntry).mp (Cache.entry_some live))

theorem evictStates (refines : Refines s σ) (counted : σ.Counted) {maxCacheSize size : Nat}
    (element : size < 2 ^ 63) (fuel : Nat) :
    ∀ v ∈ Cache.evictStates maxCacheSize size fuel s,
      v.cacheSize + size < 2 ^ 64 ∧ v.Removable := by
  induction fuel generalizing s σ with
  | zero => simp [Cache.evictStates]
  | succ fuel ih =>
      intro v member
      rw [Cache.evictStates, List.mem_cons] at member
      rcases member with rfl | later
      · refine ⟨?_, refines.removable counted⟩
        have := counted.total
        rw [refines.counter_eq counted]
        omega
      · split_ifs at later with again
        · obtain ⟨chain, rep⟩ := refines
          obtain ⟨t, removed, refinesT⟩ := rep.removeCache
          have kept : (σ.exec .remove).1.Counted := counted.exec (by simp)
          rw [removed, Option.elim_some] at later
          exact ih refinesT kept v later
        · simp at later

theorem bounded (refines : Refines s σ) (counted : σ.Counted) {op : Op}
    (sized : ∀ c, op = .add c → c.Sized) {u : Cache} (ran : s.exec op = some (u, (σ.exec op).2))
    (result : Refines u (σ.exec op).1) : Cache.Bounded s op u (σ.exec op).2 where
  counter := by
    have after := counted.exec sized
    rw [result.load_eq after, result.counter_eq after]
  removable := refines.removable counted
  added c same reply := by
    subst same
    rw [result.load_eq (counted.exec sized)]
    exact (counted.added (sized c rfl) (by simpa [Store.exec] using reply)).2
  others := by
    intro others
    rw [result.load_eq (counted.exec sized), refines.load_eq counted]
    apply Store.Within.total_le
    apply σ.exec_within
    intro c same success
    apply others c same
    rw [same, Store.exec, success]
  terminates c _ := by
    have items : s.items = σ.items := refines.choose_spec.items
    obtain ⟨v, looped, -⟩ := refines.evictLoop c.maxCacheSize c.elementSize (σ.items.length + 1)
      (Nat.lt_succ_self _) le_rfl
    exact ⟨v, by rwa [items]⟩
  evictions c same accepted := by
    refine refines.evictStates counted ?_ _
    obtain ⟨-, -, -, -, elementLimit⟩ := sized c same
    simp only [Cache.AddCall.refused, Bool.or_eq_false_iff, decide_eq_false_iff_not] at accepted
    omega

end Refines

/-- Along every run: the sum of the element sizes never exceeds the limit that a successful
`AddCache` finds in force, nothing else makes it larger, and `CACHE_SIZE` does not wrap. -/
theorem capacity_of_run {policy : CacheEvictionPolicy} {cacheDir : Bytes} {disk : Disk}
    {ops : List Op} (sized : ∀ c, .add c ∈ ops → c.Sized) :
    ∃ s, run Cache.step (Cache.cacheInit policy cacheDir disk) ops = some s ∧
      ∀ past op, past ++ [op] <+: ops → ∃ t u reply,
        run Cache.step (Cache.cacheInit policy cacheDir disk) past = some t ∧
          t.exec op = some (u, reply) ∧ Cache.Bounded t op u reply := by
  obtain ⟨s, ran, -⟩ := (Refines.init policy cacheDir disk).run ops
  refine ⟨s, ran, ?_⟩
  rintro past op ⟨future, rfl⟩
  have counted (done : List Op) (before : ∀ op ∈ done, ∀ c, op = .add c → c.Sized) {σ : Store}
      (start : σ.Counted) : (done.foldl (fun σ op => (σ.exec op).1) σ).Counted := by
    induction done generalizing σ with
    | nil => exact start
    | cons op done ih =>
        exact ih (fun op member => before op (List.mem_cons_of_mem _ member))
          (start.exec (before op List.mem_cons_self))
  obtain ⟨t, reached, refines⟩ := (Refines.init policy cacheDir disk).run past
  obtain ⟨u, executed, result⟩ := refines.exec op
  refine ⟨t, u, _, reached, executed, refines.bounded ?_ ?_ executed result⟩
  · refine counted past ?_ ⟨by simp [Store.init], by simp [Store.init, Store.total]⟩
    rintro _ member c rfl
    exact sized c (by simp [member])
  · rintro c rfl
    exact sized c (by simp)

theorem capacity_of_run_shrinking :
    ∃ s, run Cache.step (Cache.cacheInit .lru [] .empty)
        [.add (sampleCall "a" "1"), .add { sampleCall "b" "2" with maxCacheSize := 100 }] =
          some s ∧
      ∀ past op, past ++ [op] <+:
          [.add (sampleCall "a" "1"), .add { sampleCall "b" "2" with maxCacheSize := 100 }] →
        ∃ t u reply, run Cache.step (Cache.cacheInit .lru [] .empty) past = some t ∧
          t.exec op = some (u, reply) ∧ Cache.Bounded t op u reply := by
  refine capacity_of_run ?_
  intro c member
  simp only [List.mem_cons, Op.add.injEq, List.not_mem_nil, or_false] at member
  rcases member with rfl | rfl <;> unfold Cache.AddCall.Sized <;> decide

end ProxyServer
