import ProxyServer.Cache.Refinement
import ProxyServer.Lib.Run
import Mathlib.Data.Int.ModEq

namespace ProxyServer
open Lib

inductive Op where
  | find (url : Bytes) (now : Int)
  | add (c : Cache.AddCall)
  | remove
  | purge (url : Bytes)
  | clear
  | setPolicy (policy : CacheEvictionPolicy)

inductive Reply where
  | found (entry : Option Addr)
  | added (result : Int)
  | done
  deriving DecidableEq, Repr

def Cache.exec (s : Cache) : Op → Option (Cache × Reply)
  | .find url now => (s.findCache url now).map fun r => (r.1, .found r.2)
  | .add c => (s.addCache c).map fun r => (r.1, .added r.2)
  | .remove => s.removeCache.map (·, .done)
  | .purge url => (s.cachePurge url).map (·, .done)
  | .clear => s.cacheClear.map (·, .done)
  | .setPolicy policy => some (s.cacheSetEvictionPolicy policy, .done)

def Cache.step (s : Cache) (op : Op) : Option Cache := (s.exec op).map (·.1)

def sampleCall (url data : String) : Cache.AddCall where
  data := ascii data
  size := (ascii data).length
  url := ascii url
  maxElementSize := 100
  maxCacheSize := 200
  callocOk := true
  openOk := true
  written := (ascii data).length
  mmapOk := true
  mallocOk := true
  diskTime := 0
  useTime := 0
  expiryTime := 0

namespace Store

def findCache (σ : Store) (url : Bytes) (now : Int) : Store × Option Addr :=
  match σ.find url now with
  | (σ, .miss) => (σ, none)
  | (σ, .hit a) => (σ, some a)
  | (σ, .expired) => (σ.purge url, none)

theorem findCache_miss {σ : Store} {url : Bytes} (missing : σ.newest url = none) (now : Int) :
    σ.findCache url now = (σ, none) := by
  simp [findCache, find, missing]

theorem findCache_expired {σ : Store} {url : Bytes} {x : Item} {now : Int}
    (found : σ.newest url = some x) (old : x.entry.expired now = true) :
    σ.findCache url now = (σ.remove x, none) := by
  simp [findCache, find, purge, found, old]

theorem findCache_hit {σ : Store} {url : Bytes} {x : Item} {now : Int}
    (found : σ.newest url = some x) (fresh : x.entry.expired now = false) :
    σ.findCache url now = (σ.use x.addr now, some x.addr) := by
  simp [findCache, find, found, fresh]

def setPolicy (σ : Store) (policy : CacheEvictionPolicy) : Store := { σ with policy }

def exec (σ : Store) : Op → Store × Reply
  | .find url now => ((σ.findCache url now).1, .found (σ.findCache url now).2)
  | .add c => ((σ.add c).1, .added (σ.add c).2)
  | .remove => (σ.victim.elim σ σ.remove, .done)
  | .purge url => (σ.purge url, .done)
  | .clear => (σ.clear, .done)
  | .setPolicy policy => (σ.setPolicy policy, .done)

end Store

namespace Refines

variable {s : Cache} {σ : Store}

theorem init (policy : CacheEvictionPolicy) (cacheDir : Bytes) (disk : Disk) :
    Refines (Cache.cacheInit policy cacheDir disk) (Store.init policy cacheDir disk) := by
  refine ⟨fun _ => [], ⟨rfl, rfl, List.nodup_nil⟩, ?_, fun _ => rfl, ?_, ?_, rfl, rfl, rfl, rfl,
    rfl⟩
  · simp [Cache.entry, Cache.cacheInit, Store.init]
  · simp
  · simp [Store.init]

theorem findCache (refines : Refines s σ) (url : Bytes) (now : Int) :
    ∃ u, s.findCache url now = some (u, (σ.findCache url now).2) ∧
      Refines u (σ.findCache url now).1 := by
  obtain ⟨t, looked, result⟩ := refines.findLocked url now
  cases found : σ.find url now with
  | mk τ answer =>
      rw [found] at looked result
      cases answer with
      | miss => exact ⟨t, by simp [Cache.findCache, looked, Store.findCache, found],
          by simpa [Store.findCache, found] using result⟩
      | hit a => exact ⟨t, by simp [Cache.findCache, looked, Store.findCache, found],
          by simpa [Store.findCache, found] using result⟩
      | expired =>
          obtain ⟨chain, rep⟩ := result
          obtain ⟨u, purged, result⟩ := rep.purge url
          exact ⟨u, by simp [Cache.findCache, looked, purged, Store.findCache, found],
            by simpa [Store.findCache, found] using result⟩

theorem place (refines : Refines s σ) (c : Cache.AddCall) :
    ∃ u, s.place c = some (u, (σ.place c).2) ∧ Refines u (σ.place c).1 := by
  obtain ⟨chain, rep⟩ := refines
  simp only [Cache.place, Store.place, ← rep.cacheDir, ← rep.disk]
  cases made : c.entry (c.diskPath s.cacheDir) (c.toDisk (c.diskPath s.cacheDir) s.disk).2 with
  | none => exact ⟨_, rfl, chain, rep.withDisk _⟩
  | some e =>
      obtain ⟨url, length, -⟩ := Cache.AddCall.entry_shape made
      have size : c.elementSize = elementSize e.length e.url := by
        rw [url, length, Cache.AddCall.elementSize]
      obtain ⟨u, inserted, result⟩ := (rep.withDisk _).insert e
      rw [← size] at inserted
      exact ⟨u, by simp [inserted], _, result⟩

theorem add (refines : Refines s σ) (c : Cache.AddCall) :
    ∃ u, s.addCache c = some (u, (σ.add c).2) ∧ Refines u (σ.add c).1 := by
  by_cases refused : c.refused = true
  · exact ⟨s, by simp [Cache.addCache, Store.add, refused], by simpa [Store.add, refused]⟩
  obtain ⟨t, evicted, result⟩ := refines.evictLoop c.maxCacheSize c.elementSize (s.brk + 1)
    (Nat.lt_succ_of_le (refines.choose_spec.length_le_brk)) le_rfl
  rw [← Store.evict] at result
  have full : (t.cacheSize + c.elementSize) % 2 ^ 64 > c.maxCacheSize ↔
      fits c.maxCacheSize c.elementSize (σ.evict c.maxCacheSize c.elementSize).total = false := by
    obtain ⟨chain, rep⟩ := result
    rw [rep.cacheSize, fits]
    simp
  simp only [Cache.addCache, Store.add, refused, evicted, full, Bool.false_eq_true, ↓reduceIte,
    Option.bind_eq_bind, Option.bind_some]
  split_ifs
  · exact ⟨t, rfl, result⟩
  · exact ⟨t, rfl, result⟩
  · exact result.place c

theorem exec (refines : Refines s σ) (op : Op) :
    ∃ u, s.exec op = some (u, (σ.exec op).2) ∧ Refines u (σ.exec op).1 := by
  cases op with
  | find url now =>
      obtain ⟨u, ran, result⟩ := refines.findCache url now
      exact ⟨u, by simp [Cache.exec, ran, Store.exec], result⟩
  | add c =>
      obtain ⟨u, ran, result⟩ := refines.add c
      exact ⟨u, by simp [Cache.exec, ran, Store.exec], result⟩
  | remove =>
      obtain ⟨chain, rep⟩ := refines
      obtain ⟨u, ran, result⟩ := rep.removeCache
      exact ⟨u, by simp [Cache.exec, ran, Store.exec], result⟩
  | purge url =>
      obtain ⟨chain, rep⟩ := refines
      obtain ⟨u, ran, result⟩ := rep.purge url
      exact ⟨u, by simp [Cache.exec, ran, Store.exec], result⟩
  | clear =>
      obtain ⟨chain, rep⟩ := refines
      obtain ⟨u, ran, result⟩ := rep.clear
      exact ⟨u, by simp [Cache.exec, ran, Store.exec], result⟩
  | setPolicy policy =>
      obtain ⟨chain, rep⟩ := refines
      exact ⟨_, rfl, chain, rep.list, rep.entries, rep.chains, rep.latestFirst, rep.hashed,
        rep.cacheSize, rep.brk, rfl, rep.cacheDir, rep.disk⟩

theorem run (refines : Refines s σ) (ops : List Op) :
    ∃ u, Lib.run Cache.step s ops = some u ∧
      Refines u (ops.foldl (fun σ op => (σ.exec op).1) σ) := by
  induction ops generalizing s σ with
  | nil => exact ⟨s, rfl, refines⟩
  | cons op ops ih =>
      obtain ⟨t, ran, result⟩ := refines.exec op
      obtain ⟨u, rest, final⟩ := ih result
      exact ⟨u, by simp [Lib.run, Cache.step, ran, rest], final⟩

theorem of_add (refines : Refines s σ) {c : Cache.AddCall} {t : Cache} {result : Int}
    (added : s.addCache c = some (t, result)) : result = (σ.add c).2 ∧ Refines t (σ.add c).1 := by
  obtain ⟨u, ran, after⟩ := refines.add c
  rw [added, Option.some.injEq, Prod.mk.injEq] at ran
  obtain ⟨rfl, same⟩ := ran
  exact ⟨same, after⟩

theorem after_run (refines : Refines s σ) {ops : List Op} {t : Cache}
    (reached : Lib.run Cache.step s ops = some t) :
    Refines t (ops.foldl (fun σ op => (σ.exec op).1) σ) := by
  obtain ⟨u, ran, after⟩ := refines.run ops
  rw [reached, Option.some.injEq] at ran
  exact ran ▸ after

theorem of_run {policy : CacheEvictionPolicy} {cacheDir : Bytes} {disk : Disk} {ops : List Op}
    (reached : Lib.run Cache.step (Cache.cacheInit policy cacheDir disk) ops = some s) :
    ∃ σ, Refines s σ :=
  ⟨_, (Refines.init policy cacheDir disk).after_run reached⟩

end Refines
end ProxyServer
