import ProxyServer.Cache.Operations
import ProxyServer.Filter.ContentType

namespace ProxyServer
open Lib

def fieldOf (name line : Bytes) : Option Bytes :=
  if line.contains 58 && (line.takeWhile (· != 58)).map tolower == name.map tolower then
    some ((line.dropWhile (· != 58)).drop 1)
  else none

def directives (value : Bytes) : List Bytes :=
  (value.splitOn 44).map fun member => ((member.dropWhile blank).rdropWhile blank).map tolower

def cacheControl (response : Bytes) : List Bytes :=
  (headerLines response).flatMap fun line =>
    (fieldOf (ascii "Cache-Control") line).elim [] directives

def forbidsStoring (response : Bytes) : Bool :=
  (cacheControl response).any fun directive =>
    directive == ascii "no-store" || directive == ascii "no-cache"

def spellings : List Bytes := [ascii "Cache-Control: no-store", ascii "Cache-Control: no-cache"]

def Spells (line : Bytes) : Prop :=
  ∃ spelling ∈ spellings, spelling.map tolower <:+: line.map tolower

instance (line : Bytes) : Decidable (Spells line) :=
  inferInstanceAs (Decidable (∃ spelling ∈ spellings, _ <:+: _))

/-- All lines up to the first zero byte, those of the body too. -/
def textLines (response : Bytes) : List Bytes := (cstr response).splitOn 10

/-- A response that forbids storing says so in one of the two spellings, and no other has one of
them anywhere. -/
structure PlainlySpelled (response : Bytes) : Prop where
  seen : forbidsStoring response = true → ∃ line ∈ textLines response, Spells line
  unmistaken : ∀ line ∈ textLines response, Spells line → forbidsStoring response = true

theorem notCacheable_iff {c : Cache.AddCall} :
    c.notCacheable = true ↔ ∃ line ∈ textLines c.data, Spells line := by
  have lines {spelling : Bytes} (plain : 10 ∉ spelling.map tolower) :
      (strcasestr (cstr c.data) spelling).isSome = true ↔
        ∃ line ∈ textLines c.data, spelling.map tolower <:+: line.map tolower := by
    have newline (c : UInt8) (same : tolower c = tolower 10) : c = 10 :=
      eq_of_tolower_eq (by decide) same
    have pieces := splitOn_map newline (cstr c.data)
    rw [show tolower 10 = 10 from rfl] at pieces
    rw [strcasestr_isSome, infix_iff_splitOn plain, pieces, textLines]
    simp only [List.mem_map, exists_exists_and_eq_and]
  rw [Cache.AddCall.notCacheable, Bool.or_eq_true, lines (by decide), lines (by decide)]
  simp only [Spells, spellings, List.mem_cons, List.not_mem_nil, or_false, exists_eq_or_imp,
    exists_eq_left]
  constructor
  · rintro (⟨line, member, here⟩ | ⟨line, member, here⟩)
    · exact ⟨line, member, .inl here⟩
    · exact ⟨line, member, .inr here⟩
  · rintro ⟨line, member, here | here⟩
    · exact .inl ⟨line, member, here⟩
    · exact .inr ⟨line, member, here⟩

structure Cache.AddCall.Fits (c : AddCall) : Prop where
  element : c.elementSize ≤ c.maxElementSize
  cache : c.elementSize ≤ c.maxCacheSize
  calloc : c.callocOk = true
  malloc : c.mallocOk = true

namespace Store

theorem evictLoop_room (maxCacheSize size : Nat) {n : Nat} {σ : Store} (enough : σ.items.length ≤ n) :
    fits maxCacheSize size (evictLoop maxCacheSize size n σ).total = true ∨
      (evictLoop maxCacheSize size n σ).items = [] := by
  induction n generalizing σ with
  | zero => exact .inr (List.length_eq_zero_iff.mp (Nat.le_zero.mp enough))
  | succ n ih =>
      cases room : fits maxCacheSize size σ.total with
      | true => exact .inl (by rwa [evictLoop_done _ (.inl room)])
      | false =>
          cases chosen : σ.victim with
          | none =>
              have empty := σ.victim_none.mp chosen
              exact .inr (by rwa [evictLoop_done _ (.inr empty)])
          | some x =>
              rw [evictLoop_step n room chosen]
              apply ih
              have member := σ.victim_mem chosen
              rw [σ.remove_items member, List.length_erase_of_mem member]
              omega

theorem evict_room (σ : Store) {c : Cache.AddCall} (small : c.elementSize ≤ c.maxCacheSize) :
    fits c.maxCacheSize c.elementSize (σ.evict c.maxCacheSize c.elementSize).total = true := by
  have word : c.elementSize < 2 ^ 64 := Nat.mod_lt _ (by decide)
  cases evictLoop_room c.maxCacheSize c.elementSize (σ := σ) le_rfl with
  | inl room => exact room
  | inr empty =>
      rw [evict, total, empty, List.map_nil, List.sum_nil, fits, Nat.zero_mod, Nat.zero_add,
        Nat.mod_eq_of_lt word]
      exact decide_eq_true small

theorem add_fitting (σ : Store) {c : Cache.AddCall} (fits : c.Fits) :
    (σ.add c).2 = 0 ↔ c.notCacheable = true := by
  cases refused : c.notCacheable with
  | true => simp [add, Cache.AddCall.refused, refused]
  | false =>
      have accepted : c.refused = false := by
        simpa [Cache.AddCall.refused, refused] using fits.element
      obtain ⟨disk, e, placed, -⟩ :=
        (σ.evict c.maxCacheSize c.elementSize).place_eq fits.malloc
      rw [σ.add_eq accepted (σ.evict_room fits.cache) fits.calloc, placed]
      simp

end Store

def Cache.FollowsCacheControl (s : Cache) (c : AddCall) : Prop :=
  ∃ t result, s.addCache c = some (t, result) ∧
    (result = 0 ↔ forbidsStoring c.data = true) ∧ (result = 0 → t = s)

theorem followsCacheControl_iff {policy : CacheEvictionPolicy} {cacheDir : Bytes} {disk : Disk}
    {ops : List Op} {s : Cache}
    (reached : run Cache.step (Cache.cacheInit policy cacheDir disk) ops = some s)
    {c : Cache.AddCall} (fits : c.Fits) :
    s.FollowsCacheControl c ↔ PlainlySpelled c.data := by
  obtain ⟨σ, refines⟩ := Refines.of_run reached
  obtain ⟨t, added, -⟩ := refines.add c
  have verdict := (σ.add_fitting fits).trans notCacheable_iff
  constructor
  · rintro ⟨t', result, added', follows, -⟩
    rw [added, Option.some.injEq, Prod.mk.injEq] at added'
    rw [← added'.2, verdict] at follows
    exact ⟨follows.mpr, fun line member here => follows.mp ⟨line, member, here⟩⟩
  · intro plain
    refine ⟨t, _, added, ?_, ?_⟩
    · rw [verdict]
      exact ⟨fun ⟨line, member, here⟩ => plain.unmistaken line member here, plain.seen⟩
    · intro refused
      have untouched : s.addCache c = some (s, 0) := by
        rw [Cache.addCache, if_pos]
        rw [Cache.AddCall.refused, notCacheable_iff.mpr (verdict.mp refused), Bool.true_or]
      rw [untouched, Option.some.injEq, Prod.mk.injEq] at added
      exact added.1.symm

theorem run_nothing (s : Cache) : run Cache.step s [] = some s := rfl

def cacheControlCall (field : String) : Cache.AddCall :=
  { sampleCall "u" ("HTTP/1.1 200 OK\r\n" ++ field ++ "\r\n\r\n") with
    maxElementSize := 200
    maxCacheSize := 200 }

theorem noStore_followsCacheControl :
    (Cache.cacheInit .lru [] .empty).FollowsCacheControl
      (cacheControlCall "Cache-Control: No-Store") :=
  (followsCacheControl_iff (run_nothing _) ⟨by decide, by decide, rfl, rfl⟩).mpr
    ⟨fun _ => ⟨ascii "Cache-Control: No-Store\r", by decide, by decide⟩, by decide⟩

theorem noStore_without_space :
    forbidsStoring (cacheControlCall "Cache-Control:no-store").data = true ∧
      (((Cache.cacheInit .lru [] .empty).addCache
        (cacheControlCall "Cache-Control:no-store")).map (·.2)) = some 1 ∧
      ¬ (Cache.cacheInit .lru [] .empty).FollowsCacheControl
        (cacheControlCall "Cache-Control:no-store") := by
  have forbids : forbidsStoring (cacheControlCall "Cache-Control:no-store").data = true := by decide
  have stored : (((Cache.cacheInit .lru [] .empty).addCache
      (cacheControlCall "Cache-Control:no-store")).map (·.2)) = some 1 := by decide
  refine ⟨forbids, stored, ?_⟩
  rintro ⟨t, result, added, follows, -⟩
  rw [added, Option.map_some, Option.some.injEq] at stored
  have refused := follows.mpr forbids
  simp only at stored
  omega

end ProxyServer
