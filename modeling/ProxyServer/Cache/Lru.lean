import ProxyServer.Cache.Operations
import Mathlib.Algebra.Order.BigOperators.Group.List
import Mathlib.Algebra.Order.Group.Nat

namespace ProxyServer
open Lib

structure LruEntry where
  id : Nat
  url : Bytes
  length : Int
  expiresAt : Int
  deriving DecidableEq, Repr

namespace LruEntry

def size (e : LruEntry) : Nat := e.length.toNat + e.url.length + sizeofCacheModule + 1

def stale (e : LruEntry) (now : Int) : Bool := 0 < e.expiresAt && e.expiresAt < now

end LruEntry

structure Lru where
  entries : List LruEntry
  nextId : Nat
  deriving DecidableEq, Repr

namespace Lru

def empty : Lru := ⟨[], 0⟩

def total (r : Lru) : Nat := (r.entries.map LruEntry.size).sum

def newest (r : Lru) (url : Bytes) : Option LruEntry :=
  (r.entries.filter (·.url = url)).argmax LruEntry.id

def without (r : Lru) (e : LruEntry) : Lru := { r with entries := r.entries.filter (·.id ≠ e.id) }

def use (r : Lru) (e : LruEntry) : Lru := { r with entries := (r.without e).entries ++ [e] }

def makeRoom (maxCacheSize size : Nat) (entries : List LruEntry) : List LruEntry :=
  (entries.tails.find? fun rest => (rest.map LruEntry.size).sum + size ≤ maxCacheSize).getD []

theorem makeRoom_nil (maxCacheSize size : Nat) : makeRoom maxCacheSize size [] = [] := by
  unfold makeRoom
  cases found : ([] : List LruEntry).tails.find? _ with
  | none => rfl
  | some rest => simpa using List.mem_of_find?_eq_some found

theorem makeRoom_cons (maxCacheSize size : Nat) (e : LruEntry) (es : List LruEntry) :
    makeRoom maxCacheSize size (e :: es) =
      if ((e :: es).map LruEntry.size).sum + size ≤ maxCacheSize then e :: es
      else makeRoom maxCacheSize size es := by
  unfold makeRoom
  rw [List.tails_cons, List.find?_cons]
  split_ifs with room
  · rw [decide_eq_true room]
    rfl
  · rw [decide_eq_false room]

theorem makeRoom_fits {maxCacheSize size : Nat} (entries : List LruEntry)
    (small : size ≤ maxCacheSize) :
    ((makeRoom maxCacheSize size entries).map LruEntry.size).sum + size ≤ maxCacheSize := by
  unfold makeRoom
  cases found : entries.tails.find? _ with
  | none => simpa using small
  | some rest => simpa using List.find?_some found

theorem makeRoom_suffix (maxCacheSize size : Nat) (entries : List LruEntry) :
    makeRoom maxCacheSize size entries <:+ entries := by
  unfold makeRoom
  cases found : entries.tails.find? _ with
  | none => exact List.nil_suffix
  | some rest => exact (List.mem_tails _ _).mp (List.mem_of_find?_eq_some found)

def purge (r : Lru) (url : Bytes) : Lru := (r.newest url).elim r r.without

def find (r : Lru) (url : Bytes) (now : Int) : Lru × Option Addr :=
  match r.newest url with
  | none => (r, none)
  | some e => if e.stale now then (r.without e, none) else (r.use e, some e.id)

def entry (r : Lru) (c : Cache.AddCall) : LruEntry := ⟨r.nextId, c.url, c.size, c.expiresAt⟩

def add (maxCacheSize maxElementSize : Nat) (r : Lru) (c : Cache.AddCall) : Lru × Int :=
  if c.notCacheable || (r.entry c).size > maxElementSize then (r, 0)
  else ({ entries := makeRoom maxCacheSize (r.entry c).size r.entries ++ [r.entry c]
          nextId := r.nextId + 1 }, 1)

def exec (maxCacheSize maxElementSize : Nat) (r : Lru) : Op → Option (Lru × Reply)
  | .find url now => some ((r.find url now).1, .found (r.find url now).2)
  | .add c =>
      some ((r.add maxCacheSize maxElementSize c).1, .added (r.add maxCacheSize maxElementSize c).2)
  | .remove => some ({ r with entries := r.entries.tail }, .done)
  | .purge url => some (r.purge url, .done)
  | .clear => some ({ r with entries := [] }, .done)
  | .setPolicy _ => some (r, .done)

def step (maxCacheSize maxElementSize : Nat) (r : Lru) (op : Op) : Option Lru :=
  (r.exec maxCacheSize maxElementSize op).map Prod.fst

end Lru

/-- The calls of a run under `EVICT_LRU` with fixed limits in which every allocation succeeds: what
is stored and what is to be stored lie in one address space. -/
def LruCall (maxCacheSize maxElementSize : Nat) (r : Lru) : Op → Prop
  | .add c => c.maxCacheSize = maxCacheSize ∧ c.maxElementSize = maxElementSize ∧ 0 ≤ c.size ∧
      c.callocOk = true ∧ c.mallocOk = true ∧ r.total + (r.entry c).size < 2 ^ 64
  | .setPolicy policy => policy = .lru
  | _ => True

instance (maxCacheSize maxElementSize : Nat) (r : Lru) :
    (op : Op) → Decidable (LruCall maxCacheSize maxElementSize r op)
  | .add c => inferInstanceAs (Decidable (c.maxCacheSize = maxCacheSize ∧
      c.maxElementSize = maxElementSize ∧ 0 ≤ c.size ∧ c.callocOk = true ∧ c.mallocOk = true ∧
      r.total + (r.entry c).size < 2 ^ 64))
  | .setPolicy policy => inferInstanceAs (Decidable (policy = .lru))
  | .find _ _ | .remove | .purge _ | .clear => isTrue trivial

theorem argmax_map {α β : Type*} (f : α → β) (key : β → Nat) (xs : List α) :
    (xs.map f).argmax key = (xs.argmax (key ∘ f)).map f := by
  induction xs using List.reverseRecOn with
  | nil => rfl
  | append_singleton xs x ih =>
      rw [List.map_append, List.map_singleton, List.argmax_concat, List.argmax_concat, ih]
      cases xs.argmax (key ∘ f) with
      | none => rfl
      | some m =>
          simp only [Option.map_some, Function.comp_apply]
          split_ifs <;> rfl

def Item.lru (x : Item) : LruEntry := ⟨x.addr, x.entry.url, x.entry.length, x.entry.expiresAt⟩

namespace Store

structure MatchesLru (σ : Store) (r : Lru) : Prop where
  policy : σ.policy = .lru
  entries : σ.items.map Item.lru = r.entries
  nextId : σ.brk = r.nextId
  lengths : ∀ x ∈ σ.items, 0 ≤ x.entry.length
  memory : r.total < 2 ^ 64

namespace MatchesLru

variable {σ : Store} {r : Lru}

theorem newest (same : σ.MatchesLru r) (url : Bytes) :
    r.newest url = (σ.newest url).map Item.lru := by
  rw [Lru.newest, ← same.entries, List.filter_map, argmax_map]
  rfl

theorem total_without (r : Lru) (e : LruEntry) : (r.without e).total ≤ r.total :=
  (List.filter_sublist.map LruEntry.size).sum_le_sum fun _ _ => Nat.zero_le _

theorem remove (same : σ.MatchesLru r) (x : Item) : (σ.remove x).MatchesLru (r.without x.lru) where
  policy := same.policy
  entries := by
    simp only [Store.remove, Lru.without, ← same.entries, List.filter_map]
    rfl
  nextId := same.nextId
  lengths y member := same.lengths y (List.mem_of_mem_filter member)
  memory := (total_without r x.lru).trans_lt same.memory

theorem purge (same : σ.MatchesLru r) (url : Bytes) : (σ.purge url).MatchesLru (r.purge url) := by
  rw [Store.purge, Lru.purge, same.newest]
  cases σ.newest url with
  | none => exact same
  | some x => exact same.remove x

theorem use (same : σ.MatchesLru r) {x : Item} (member : x ∈ σ.items) (now : Int) :
    (σ.use x.addr now).MatchesLru (r.use x.lru) := by
  have touched : (σ.modify x.addr (·.touch now)).items.map Item.lru = r.entries := by
    rw [← same.entries]
    simp only [Store.modify, List.map_map]
    apply List.map_congr_left
    intro y _
    simp only [Function.comp_apply]
    split <;> rfl
  have stays : (⟨x.addr, x.entry.touch now⟩ : Item) ∈ (σ.modify x.addr (·.touch now)).items :=
    σ.mem_modify.mpr ⟨x.entry, member, by simp⟩
  obtain ⟨L, R, items⟩ := List.append_of_mem stays
  have moved := Store.moveToEnd_split _ items
  have rest := Store.remove_split _ items
  have entries : (r.use x.lru).entries =
      (L ++ R ++ [(⟨x.addr, x.entry.touch now⟩ : Item)]).map Item.lru := by
    rw [List.map_append, ← rest, Lru.use, Lru.without, ← touched, List.filter_map]
    rfl
  rw [Store.use, if_pos same.policy]
  constructor
  · exact same.policy
  · rw [entries, ← moved]
  · exact same.nextId
  · intro y inside
    rw [(Store.moveToEnd_perm _ _).mem_iff] at inside
    obtain ⟨e, stored, shape⟩ := (σ.mem_modify (b := y.addr) (e := y.entry)).mp inside
    have length : y.entry.length = e.length := by
      rw [shape]
      split <;> rfl
    exact length ▸ same.lengths _ stored
  · have perm : (r.use x.lru).entries.Perm r.entries := by
      rw [entries, ← moved, ← touched]
      exact (Store.moveToEnd_perm _ _).map _
    rw [Lru.total, (perm.map LruEntry.size).sum_eq]
    exact same.memory

theorem find (same : σ.MatchesLru r) (url : Bytes) (now : Int) :
    (σ.findCache url now).1.MatchesLru (r.find url now).1 ∧
      (σ.findCache url now).2 = (r.find url now).2 := by
  cases found : σ.newest url with
  | none => simpa [Store.findCache_miss found, Lru.find, same.newest, found] using same
  | some x =>
      have stale : x.lru.stale now = x.entry.expired now := rfl
      cases old : x.entry.expired now with
      | true =>
          simpa [Store.findCache_expired found old, Lru.find, same.newest, found, stale, old]
            using same.remove x
      | false =>
          have used := same.use (σ.newest_mem found).1 now
          simpa [Store.findCache_hit found old, Lru.find, same.newest, found, stale, old]
            using ⟨used, rfl⟩

theorem weight_eq (same : σ.MatchesLru r) {x : Item} (member : x ∈ σ.items) :
    weight x = x.lru.size := by
  have length := same.lengths x member
  have bound : x.lru.size ≤ r.total := by
    apply List.single_le_sum fun _ _ => Nat.zero_le _
    exact List.mem_map_of_mem (same.entries ▸ List.mem_map_of_mem member)
  have memory := same.memory
  simp only [weight, elementSize, toSize, LruEntry.size, Item.lru] at bound ⊢
  omega

theorem dropToFit_makeRoom {maxCacheSize size : Nat} {xs : List Item}
    (weights : ∀ x ∈ xs, weight x = x.lru.size)
    (memory : ((xs.map Item.lru).map LruEntry.size).sum + size < 2 ^ 64) :
    (dropToFit weight (fits maxCacheSize size) xs).map Item.lru =
      Lru.makeRoom maxCacheSize size (xs.map Item.lru) := by
  induction xs with
  | nil => rw [List.map_nil, Lru.makeRoom_nil, dropToFit, List.map_nil]
  | cons x xs ih =>
      have sums :
          ((x :: xs).map weight).sum = (((x :: xs).map Item.lru).map LruEntry.size).sum := by
        rw [List.map_map]
        exact congrArg List.sum (List.map_congr_left weights)
      have room : fits maxCacheSize size (((x :: xs).map weight).sum) =
          decide ((((x :: xs).map Item.lru).map LruEntry.size).sum + size ≤ maxCacheSize) := by
        rw [sums, fits, Nat.mod_add_mod, Nat.mod_eq_of_lt memory]
      have later := ih (fun y inside => weights y (by simp [inside]))
        (by simp only [List.map_cons, List.sum_cons] at memory; omega)
      rw [dropToFit, room, List.map_cons, Lru.makeRoom_cons, ← later, ← List.map_cons]
      simp only [decide_eq_true_eq]
      split_ifs <;> rfl

theorem evict (same : σ.MatchesLru r) (maxCacheSize : Nat) {size : Nat}
    (memory : r.total + size < 2 ^ 64) :
    (σ.evict maxCacheSize size).MatchesLru
      { r with entries := Lru.makeRoom maxCacheSize size r.entries } := by
  have order : (σ.evict maxCacheSize size).items =
      dropToFit weight (fits maxCacheSize size) σ.items := by
    rw [Store.evict, Store.evictLoop_items, evict_constant _ _ _ σ.items_nodup le_rfl]
    intro a b
    simp [itemKey, Cache.victimKey, same.policy]
  obtain ⟨brk, policy, -⟩ := Store.evictLoop_frame maxCacheSize size σ.items.length σ
  refine ⟨policy.trans same.policy, ?_, brk.trans same.nextId, ?_, ?_⟩
  · rw [order, dropToFit_makeRoom fun x member => same.weight_eq member, same.entries]
    rw [same.entries]
    exact memory
  · intro x member
    rw [order] at member
    exact same.lengths x ((dropToFit_suffix _ _ _).subset member)
  · have fewer := (Lru.makeRoom_suffix maxCacheSize size r.entries).sublist.map LruEntry.size
    exact (fewer.sum_le_sum fun _ _ => Nat.zero_le _).trans_lt same.memory

theorem total_eq (same : σ.MatchesLru r) : σ.total = r.total := by
  rw [Store.total, Lru.total, ← same.entries, List.map_map]
  exact congrArg List.sum (List.map_congr_left fun x member => same.weight_eq member)

theorem insert (same : σ.MatchesLru r) (disk : Disk) {c : Cache.AddCall} {e : Entry}
    (url : e.url = c.url) (length : e.length = c.size) (expires : e.expiresAt = c.expiresAt)
    (positive : 0 ≤ c.size) (memory : r.total + (r.entry c).size < 2 ^ 64) :
    ((σ.withDisk disk).insert e).MatchesLru
      { entries := r.entries ++ [r.entry c], nextId := r.nextId + 1 } := by
  refine ⟨same.policy, ?_, congrArg (· + 1) same.nextId, ?_, ?_⟩
  · simp [Store.insert, Store.withDisk, same.entries, Item.lru, Lru.entry, same.nextId, url, length,
      expires]
  · intro x member
    rcases List.mem_append.mp member with inside | last
    · exact same.lengths x inside
    · rw [List.mem_singleton.mp last, length]
      exact positive
  · simpa [Lru.total] using memory

theorem add (same : σ.MatchesLru r) {maxCacheSize maxElementSize : Nat}
    (limits : maxElementSize ≤ maxCacheSize) {c : Cache.AddCall}
    (call : LruCall maxCacheSize maxElementSize r (.add c)) :
    (σ.add c).1.MatchesLru (r.add maxCacheSize maxElementSize c).1 ∧
      (σ.add c).2 = (r.add maxCacheSize maxElementSize c).2 := by
  obtain ⟨rfl, rfl, positive, calloc, malloc, memory⟩ := call
  have size : c.elementSize = (r.entry c).size := by
    simp only [Cache.AddCall.elementSize, elementSize, toSize, LruEntry.size, Lru.entry] at memory ⊢
    omega
  have refused : c.refused = (c.notCacheable || decide ((r.entry c).size > c.maxElementSize)) := by
    rw [Cache.AddCall.refused, size]
  by_cases reject : c.refused = true
  · rw [Store.add, if_pos reject, Lru.add, if_pos (refused ▸ reject)]
    exact ⟨same, rfl⟩
  rw [Lru.add, if_neg (refused ▸ reject)]
  have kept := same.evict c.maxCacheSize memory
  have less : Lru.total { r with entries := Lru.makeRoom c.maxCacheSize (r.entry c).size r.entries }
      ≤ r.total :=
    ((Lru.makeRoom_suffix _ _ _).sublist.map LruEntry.size).sum_le_sum fun _ _ => Nat.zero_le _
  have room : fits c.maxCacheSize c.elementSize
      (σ.evict c.maxCacheSize c.elementSize).total = true := by
    have small : (r.entry c).size ≤ c.maxCacheSize := by
      simp only [refused, Bool.or_eq_true, decide_eq_true_eq] at reject
      omega
    have fit := Lru.makeRoom_fits r.entries small
    rw [size, kept.total_eq, fits, Nat.mod_add_mod, Nat.mod_eq_of_lt (by omega)]
    exact decide_eq_true fit
  obtain ⟨disk, e, placed, url, length, expires⟩ :=
    (σ.evict c.maxCacheSize c.elementSize).place_eq malloc
  rw [σ.add_eq (by simpa using reject) room calloc, placed]
  rw [← size] at kept less memory ⊢
  refine ⟨kept.insert disk url length expires positive ?_, rfl⟩
  exact (Nat.add_le_add_right less _).trans_lt (size ▸ memory)

theorem removeFirst (same : σ.MatchesLru r) :
    (σ.victim.elim σ σ.remove).MatchesLru { r with entries := r.entries.tail } := by
  have first : σ.victim = σ.items.head? := by
    rw [Store.victim, rank_constant]
    intro a b
    simp [itemKey, Cache.victimKey, same.policy]
  rw [first]
  cases items : σ.items with
  | nil =>
      have none : r.entries.tail = r.entries := by simp [← same.entries, items]
      rw [none]
      exact same
  | cons x rest =>
      have removed := same.remove x
      have entries : (r.without x.lru).entries = r.entries.tail := by
        rw [← removed.entries, ← same.entries, σ.remove_split (l := []) items, items]
        rfl
      rw [← entries]
      exact removed

theorem exec (same : σ.MatchesLru r) {maxCacheSize maxElementSize : Nat}
    (limits : maxElementSize ≤ maxCacheSize) {op : Op}
    (call : LruCall maxCacheSize maxElementSize r op) :
    ∃ r', r.exec maxCacheSize maxElementSize op = some (r', (σ.exec op).2) ∧
      (σ.exec op).1.MatchesLru r' := by
  cases op with
  | find url now =>
      obtain ⟨next, answer⟩ := same.find url now
      exact ⟨_, by rw [Lru.exec, Store.exec, answer], next⟩
  | add c =>
      obtain ⟨next, answer⟩ := same.add limits call
      exact ⟨_, by rw [Lru.exec, Store.exec, answer], next⟩
  | remove => exact ⟨_, rfl, same.removeFirst⟩
  | purge url => exact ⟨_, rfl, same.purge url⟩
  | clear => exact ⟨_, rfl, same.policy, rfl, same.nextId, by simp [Store.exec, Store.clear],
      by simp [Lru.total]⟩
  | setPolicy policy =>
      exact ⟨r, rfl, call, same.entries, same.nextId, same.lengths, same.memory⟩

end MatchesLru
end Store

/-- Under `EVICT_LRU`, with fixed limits and allocations that succeed, `cache.c` gives the answers
of the reference cache and keeps its list in the same order. -/
theorem cache_simulates_lru {maxCacheSize maxElementSize : Nat}
    (limits : maxElementSize ≤ maxCacheSize) (cacheDir : Bytes) (disk : Disk) (ops : List Op)
    (calls : EveryStep (Lru.step maxCacheSize maxElementSize) Lru.empty ops
      (LruCall maxCacheSize maxElementSize)) :
    ∃ s r replies,
      trace Cache.exec (Cache.cacheInit .lru cacheDir disk) ops = some (s, replies) ∧
      trace (Lru.exec maxCacheSize maxElementSize) Lru.empty ops = some (r, replies) ∧
      s.items.map Item.lru = r.entries := by
  have follow : ∀ (s : Cache) (r : Lru) op, (∃ σ, Refines s σ ∧ σ.MatchesLru r) →
      LruCall maxCacheSize maxElementSize r op → ∃ s' r' answer,
        s.exec op = some (s', answer) ∧
        r.exec maxCacheSize maxElementSize op = some (r', answer) ∧
        ∃ σ, Refines s' σ ∧ σ.MatchesLru r' := by
    intro s r op given call
    obtain ⟨σ, refines, same⟩ := given
    obtain ⟨s', ran, refines'⟩ := refines.exec op
    obtain ⟨r', ranToo, same'⟩ := same.exec limits call
    exact ⟨s', r', _, ran, ranToo, _, refines', same'⟩
  have init : (Store.init .lru cacheDir disk).MatchesLru Lru.empty :=
    ⟨rfl, rfl, rfl, by simp [Store.init], by simp [Lru.total, Lru.empty]⟩
  obtain ⟨s, r, replies, ran, ranToo, σ, ⟨chain, rep⟩, same⟩ :=
    trace_simulates follow ⟨_, Refines.init .lru cacheDir disk, init⟩ calls
  exact ⟨s, r, replies, ran, ranToo, by rw [rep.items, same.entries]⟩

theorem cache_simulates_lru_three :
    ∃ s r replies,
      trace Cache.exec (Cache.cacheInit .lru [] .empty)
        [.add (sampleCall "a" "1"), .add (sampleCall "b" "2"), .find (ascii "a") 5,
          .add (sampleCall "c" "3"), .find (ascii "b") 6] = some (s, replies) ∧
      trace (Lru.exec 200 100) Lru.empty
        [.add (sampleCall "a" "1"), .add (sampleCall "b" "2"), .find (ascii "a") 5,
          .add (sampleCall "c" "3"), .find (ascii "b") 6] = some (r, replies) ∧
      s.items.map Item.lru = r.entries :=
  cache_simulates_lru (by decide) [] .empty _ (by decide +kernel)

end ProxyServer
