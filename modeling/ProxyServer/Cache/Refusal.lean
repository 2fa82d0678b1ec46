import ProxyServer.Cache.CacheControl
import ProxyServer.Cache.Latest

namespace ProxyServer
open Lib

namespace Cache

structure SameContents (s t : Cache) : Prop where
  heap : t.heap = s.heap
  hashTable : t.hashTable = s.hashTable
  listHead : t.listHead = s.listHead
  listTail : t.listTail = s.listTail
  cacheSize : t.cacheSize = s.cacheSize
  content : ∀ a e, s.entry a = some e → e.content t.disk = e.content s.disk

def Roomy (s : Cache) (c : AddCall) : Prop :=
  (s.cacheSize + c.elementSize) % 2 ^ 64 ≤ c.maxCacheSize ∨ s.listHead = none

def WritesApart (s : Cache) (c : AddCall) : Prop :=
  c.opens = true → ∀ a e file, s.entry a = some e → e.data = .mapped file →
    s.disk.names (c.diskPath s.cacheDir) = some file →
    (c.data.take c.written.toNat).take e.length.toNat =
      (s.disk.files file).take e.length.toNat

theorem SameContents.refl (s : Cache) : SameContents s s :=
  ⟨rfl, rfl, rfl, rfl, rfl, fun _ _ _ => rfl⟩

theorem evictLoop_roomy {s : Cache} {c : AddCall} (roomy : s.Roomy c) (fuel : Nat) :
    evictLoop c.maxCacheSize c.elementSize (fuel + 1) s = some s := by
  rw [evictLoop, if_neg]
  rintro ⟨full, some⟩
  cases roomy with
  | inl room => omega
  | inr none => exact some none

theorem place_refused {s t : Cache} {c : AddCall} (refused : s.place c = some (t, 0)) :
    t = { s with disk := (c.toDisk (c.diskPath s.cacheDir) s.disk).1 } := by
  rw [place] at refused
  cases made : c.entry (c.diskPath s.cacheDir) (c.toDisk (c.diskPath s.cacheDir) s.disk).2 with
  | none =>
      simp only [made, Option.some.injEq, Prod.mk.injEq, and_true] at refused
      exact refused.symm
  | some e =>
      simp only [made, Option.bind_eq_bind, Option.bind_eq_some_iff, Option.some.injEq,
        Prod.mk.injEq] at refused
      obtain ⟨u, -, -, absurd⟩ := refused
      cases absurd

theorem addCache_roomy {s t : Cache} {c : AddCall} (accepted : c.refused = false)
    (roomy : s.Roomy c) (refusal : s.addCache c = some (t, 0)) :
    t = s ∧ (s.listHead = none ∨ c.callocOk = false) ∨
      c.callocOk = true ∧
        t = { s with disk := (c.toDisk (c.diskPath s.cacheDir) s.disk).1 } := by
  rw [addCache, if_neg (by rw [accepted]; exact Bool.false_ne_true), evictLoop_roomy roomy] at refusal
  simp only [Option.bind_eq_bind, Option.bind_some] at refusal
  split at refusal
  · rename_i full
    simp only [Option.some.injEq, Prod.mk.injEq, and_true] at refusal
    exact .inl ⟨refusal.symm, .inl (roomy.resolve_left (Nat.not_le_of_lt full))⟩
  · split at refusal
    · rename_i calloc
      simp only [Option.some.injEq, Prod.mk.injEq, and_true] at refusal
      exact .inl ⟨refusal.symm, .inr calloc⟩
    · rename_i calloc
      exact .inr ⟨by simpa using calloc, place_refused refusal⟩

end Cache

namespace Store

variable {σ : Store} {c : Cache.AddCall}

theorem add_refused_items (accepted : c.refused = false) (refusal : (σ.add c).2 = 0) :
    (σ.add c).1.items = (σ.evict c.maxCacheSize c.elementSize).items := by
  simp only [add, accepted, Bool.false_eq_true, ↓reduceIte] at refusal ⊢
  split_ifs at refusal ⊢
  · rfl
  · rfl
  · unfold place at refusal ⊢
    cases made : c.entry (c.diskPath (σ.evict c.maxCacheSize c.elementSize).cacheDir)
        (c.toDisk (c.diskPath (σ.evict c.maxCacheSize c.elementSize).cacheDir)
          (σ.evict c.maxCacheSize c.elementSize).disk).2 with
    | none => simp [made, withDisk]
    | some e => simp [made] at refusal

theorem evict_loses {x : Item} {maxCacheSize size : Nat} (full : fits maxCacheSize size σ.total = false)
    (chosen : σ.victim = some x) : x ∉ (σ.evict maxCacheSize size).items := by
  have member := σ.victim_mem chosen
  obtain ⟨n, count⟩ := Nat.exists_eq_succ_of_ne_zero (List.length_pos_of_mem member).ne'
  rw [evict, count, evictLoop_step n full chosen]
  intro inside
  exact (σ.mem_remove.mp ((evictLoop_sublist _ _ _ _).subset inside)).2 rfl

end Store

namespace Refines

variable {s t : Cache} {σ : Store} {c : Cache.AddCall}

theorem entry_none_of_empty (refines : Refines s σ) (empty : s.listHead = none) (a : Addr) :
    s.entry a = none := by
  obtain ⟨chain, rep⟩ := refines
  have noItems : σ.items = [] := by
    have head : s.listHead = (σ.items.map Item.addr).head? := rep.list.head_eq
    rw [empty] at head
    simpa using head.symm
  by_contra held
  obtain ⟨e, held⟩ := Option.ne_none_iff_exists'.mp held
  have inside := (rep.entries a e).mp held
  rw [noItems] at inside
  cases inside

theorem roomy_of_same (refines : Refines s σ) (accepted : c.refused = false)
    (refusal : s.addCache c = some (t, 0)) (same : s.SameContents t) : s.Roomy c := by
  obtain ⟨refused, result⟩ := refines.of_add refusal
  by_contra crowded
  rw [Cache.Roomy, not_or] at crowded
  obtain ⟨full, occupied⟩ := crowded
  obtain ⟨chain, rep⟩ := refines
  have noRoom : fits c.maxCacheSize c.elementSize σ.total = false := by
    rw [fits, ← rep.cacheSize]
    exact decide_eq_false full
  have hasVictim : σ.victim ≠ none := by
    intro none
    apply occupied
    have head : s.listHead = (σ.items.map Item.addr).head? := rep.list.head_eq
    rw [head, σ.victim_none.mp none]
    rfl
  obtain ⟨x, chosen⟩ := Option.ne_none_iff_exists'.mp hasVictim
  have held := (rep.entries x.addr x.entry).mpr (σ.victim_mem chosen)
  have kept : t.entry x.addr = some x.entry := by
    rw [Cache.entry, same.heap]
    exact held
  have inside := (result.choose_spec.entries _ _).mp kept
  rw [Store.add_refused_items accepted refused.symm] at inside
  exact Store.evict_loses noRoom chosen inside

theorem sameContents_disk (refines : Refines s σ) (mapped : σ.Mapped) :
    s.SameContents { s with disk := (c.toDisk (c.diskPath s.cacheDir) s.disk).1 } ↔
      s.WritesApart c := by
  obtain ⟨chain, rep⟩ := refines
  have each {a : Addr} {e : Entry} (held : s.entry a = some e) :
      e.content (c.toDisk (c.diskPath s.cacheDir) s.disk).1 = e.content s.disk ↔
        (c.opens = true → ∀ file, e.data = .mapped file →
          s.disk.names (c.diskPath s.cacheDir) = some file →
          (c.data.take c.written.toNat).take e.length.toNat =
            (s.disk.files file).take e.length.toNat) :=
    Cache.AddCall.toDisk_content fun file data =>
      rep.disk ▸ mapped _ ((rep.entries a e).mp held) file data
  constructor
  · intro same opens a e file held data named
    exact (each held).mp (same.content a e held) opens file data named
  · intro apart
    refine ⟨rfl, rfl, rfl, rfl, rfl, ?_⟩
    intro a e held
    exact (each held).mpr fun opens file data named => apart opens a e file held data named

end Refines

theorem sameContents_iff {policy : CacheEvictionPolicy} {cacheDir : Bytes} {disk : Disk}
    {ops : List Op} {s t : Cache} {c : Cache.AddCall}
    (reached : run Cache.step (Cache.cacheInit policy cacheDir disk) ops = some s)
    (refusal : s.addCache c = some (t, 0)) :
    s.SameContents t ↔
      c.refused = true ∨ s.Roomy c ∧ (c.callocOk = true → s.WritesApart c) := by
  have refines := (Refines.init policy cacheDir disk).after_run reached
  have mapped := Store.Mapped.run (σ := Store.init policy cacheDir disk)
    (fun x inside => by cases inside) ops
  cases refused : c.refused with
  | true =>
      rw [Cache.addCache, if_pos refused, Option.some.injEq, Prod.mk.injEq] at refusal
      obtain ⟨rfl, -⟩ := refusal
      exact iff_of_true (.refl s) (.inl rfl)
  | false =>
      rw [or_iff_right Bool.false_ne_true]
      constructor
      · intro same
        have roomy := refines.roomy_of_same refused refusal same
        refine ⟨roomy, fun calloc => ?_⟩
        cases Cache.addCache_roomy refused roomy refusal with
        | inl untouched =>
            intro opens a e file held
            have empty := untouched.2.resolve_right (by rw [calloc]; exact Bool.noConfusion)
            rw [refines.entry_none_of_empty empty a] at held
            cases held
        | inr written => exact (refines.sameContents_disk mapped).mp (written.2 ▸ same)
      · rintro ⟨roomy, apart⟩
        cases Cache.addCache_roomy refused roomy refusal with
        | inl untouched =>
            rw [untouched.1]
            exact .refl s
        | inr written =>
            rw [written.2]
            exact (refines.sameContents_disk mapped).mpr (apart written.1)

theorem noMemory_sameContents :
    ∃ s t, run Cache.step (Cache.cacheInit .lru [] .empty) [.add (sampleCall "a" "1")] = some s ∧
      s.addCache { sampleCall "b" "2" with callocOk := false } = some (t, 0) ∧
      s.SameContents t := by
  obtain ⟨s, reached⟩ := Option.isSome_iff_exists.mp (show (run Cache.step
    (Cache.cacheInit .lru [] .empty) [.add (sampleCall "a" "1")]).isSome = true by decide)
  have outcome : ((run Cache.step (Cache.cacheInit .lru [] .empty)
      [.add (sampleCall "a" "1")]).bind fun s =>
        s.addCache { sampleCall "b" "2" with callocOk := false }).map (·.2) = some 0 := by
    decide
  have room : (run Cache.step (Cache.cacheInit .lru [] .empty)
      [.add (sampleCall "a" "1")]).map (·.cacheSize) = some 91 := by decide
  rw [reached, Option.bind_some] at outcome
  rw [reached, Option.map_some, Option.some.injEq] at room
  obtain ⟨⟨t, result⟩, refusal, rfl⟩ := Option.map_eq_some_iff.mp outcome
  refine ⟨s, t, reached, refusal, (sameContents_iff reached refusal).mpr (.inr ⟨.inl ?_, ?_⟩)⟩
  · rw [room]
    decide
  · intro calloc
    cases calloc

theorem oversized_empties :
    ∃ s t, run Cache.step (Cache.cacheInit .lru [] .empty)
        [.add { sampleCall "a" "1" with maxElementSize := 1000, maxCacheSize := 100 }] = some s ∧
      s.addCache { sampleCall "b" "12345678901234567890" with
        maxElementSize := 1000
        maxCacheSize := 100 } = some (t, 0) ∧
      s.listHead = some 0 ∧ t.listHead = none ∧ ¬ s.SameContents t := by
  have before : (run Cache.step (Cache.cacheInit .lru [] .empty)
      [.add { sampleCall "a" "1" with maxElementSize := 1000, maxCacheSize := 100 }]).map
        (·.listHead) = some (some 0) := by decide
  have after : ((run Cache.step (Cache.cacheInit .lru [] .empty)
      [.add { sampleCall "a" "1" with maxElementSize := 1000, maxCacheSize := 100 }]).bind fun s =>
        s.addCache { sampleCall "b" "12345678901234567890" with
          maxElementSize := 1000
          maxCacheSize := 100 }).map (fun r => (r.1.listHead, r.2)) = some (none, 0) := by
    decide
  obtain ⟨s, reached, first⟩ := Option.map_eq_some_iff.mp before
  rw [reached, Option.bind_some] at after
  obtain ⟨⟨t, result⟩, refusal, answer⟩ := Option.map_eq_some_iff.mp after
  rw [Prod.mk.injEq] at answer
  obtain ⟨last, rfl⟩ := answer
  refine ⟨s, t, reached, refusal, first, last, ?_⟩
  intro same
  have kept := same.listHead
  rw [first, last] at kept
  cases kept

end ProxyServer
