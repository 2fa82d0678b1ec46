import ProxyServer.Cache.CacheControl
import ProxyServer.Cache.Entries
import ProxyServer.Request.HostField

namespace ProxyServer
open Lib

def maxAgeOf (directive : Bytes) : Option Nat :=
  let digits := directive.drop 8
  if (ascii "max-age=").isPrefixOf directive && digits != [] && digits.all isdigit then
    some (ProxyParse.decimal digits)
  else none

def namesMaxAge (directive : Bytes) : Bool := directive.takeWhile (· != 61) == ascii "max-age"

/-- The seconds that a directive gives, in the range of an `int`, or an hour without one. -/
def DeclaresLifetime (response : Bytes) (n : Nat) : Prop :=
  (n < 2 ^ 31 ∧ ∃ directive ∈ cacheControl response, maxAgeOf directive = some n) ∨
    (n = 3600 ∧ ∀ directive ∈ cacheControl response, namesMaxAge directive = false)

def StartsAt (text key rest : Bytes) : Prop :=
  (rest <:+ text ∧ key.map tolower <+: rest.map tolower) ∧
    ∀ other, other <:+ text → key.map tolower <+: other.map tolower → other.length ≤ rest.length

def FirstMaxAge (response : Bytes) (number : Int) : Prop :=
  ∃ field age, StartsAt (cstr response) (ascii "Cache-Control:") field ∧
    StartsAt field (ascii "max-age=") age ∧ atoi (age.drop 8) = number

def ReadsAs (response : Bytes) (n : Nat) : Prop :=
  (0 < n ∧ FirstMaxAge response n) ∨
    (n = 3600 ∧ ∀ number, FirstMaxAge response number → number ≤ 0)

theorem startsAt_here {text key : Bytes} (here : key.map tolower <+: text.map tolower)
    {rest : Bytes} : StartsAt text key rest ↔ text = rest := by
  constructor
  · intro starts
    have long := starts.2 text (List.suffix_refl _) here
    exact (starts.1.1.eq_of_length_le long).symm
  · rintro rfl
    exact ⟨⟨List.suffix_refl _, here⟩, fun other suffix _ => suffix.length_le⟩

theorem startsAt_cons {c : UInt8} {text key : Bytes}
    (notHere : ¬ key.map tolower <+: (c :: text).map tolower) {rest : Bytes} :
    StartsAt (c :: text) key rest ↔ StartsAt text key rest := by
  have suffixes {other : Bytes} (found : key.map tolower <+: other.map tolower) :
      other <:+ c :: text ↔ other <:+ text := by
    rw [List.suffix_cons_iff]
    exact or_iff_right fun whole => notHere (whole ▸ found)
  constructor
  · rintro ⟨⟨suffix, found⟩, first⟩
    exact ⟨⟨(suffixes found).mp suffix, found⟩,
      fun other inside here => first other ((suffixes here).mpr inside) here⟩
  · rintro ⟨⟨suffix, found⟩, first⟩
    exact ⟨⟨(suffixes found).mpr suffix, found⟩,
      fun other inside here => first other ((suffixes here).mp inside) here⟩

theorem strcasestr_eq_some {text key rest : Bytes} :
    strcasestr text key = some rest ↔ StartsAt text key rest := by
  induction text with
  | nil =>
      rw [strcasestr, List.tails, List.find?_singleton]
      split
      · rename_i here
        rw [startsAt_here (List.isPrefixOf_iff_prefix.mp here), Option.some.injEq]
      · rename_i notHere
        refine iff_of_false (Option.some_ne_none rest).symm ?_
        rintro ⟨⟨suffix, found⟩, -⟩
        rw [List.suffix_nil.mp suffix] at found
        exact notHere (List.isPrefixOf_iff_prefix.mpr found)
  | cons c text ih =>
      rw [strcasestr, List.tails_cons, List.find?_cons]
      split
      · rename_i here
        rw [startsAt_here (List.isPrefixOf_iff_prefix.mp here), Option.some.injEq]
      · rename_i notHere
        rw [Bool.eq_false_iff, ne_eq, List.isPrefixOf_iff_prefix] at notHere
        rw [startsAt_cons notHere]
        exact ih

namespace Cache.AddCall

def lifetime (c : AddCall) : Int := if c.maxAge > 0 then c.maxAge else 3600

theorem expiresAt_eq (c : AddCall) : c.expiresAt = c.expiryTime + c.lifetime := by
  rw [expiresAt, lifetime]
  split <;> rfl

theorem lifetime_pos (c : AddCall) : 0 < c.lifetime := by
  rw [lifetime]
  split <;> omega

theorem firstMaxAge_unique {response : Bytes} {number number' : Int}
    (first : FirstMaxAge response number) (first' : FirstMaxAge response number') :
    number = number' := by
  obtain ⟨field, age, isField, isAge, rfl⟩ := first
  obtain ⟨field', age', isField', isAge', rfl⟩ := first'
  rw [← strcasestr_eq_some] at isField isAge isField' isAge'
  rw [isField, Option.some.injEq] at isField'
  subst isField'
  rw [isAge, Option.some.injEq] at isAge'
  rw [isAge']

theorem maxAge_cases (c : AddCall) :
    FirstMaxAge c.data c.maxAge ∨ c.maxAge = -1 ∧ ∀ number, ¬ FirstMaxAge c.data number := by
  rw [maxAge]
  cases isField : strcasestr (cstr c.data) (ascii "Cache-Control:") with
  | none =>
      refine .inr ⟨rfl, ?_⟩
      rintro number ⟨field, age, isField', -⟩
      rw [← strcasestr_eq_some, isField] at isField'
      cases isField'
  | some field =>
      simp only
      cases isAge : strcasestr field (ascii "max-age=") with
      | none =>
          refine .inr ⟨rfl, ?_⟩
          rintro number ⟨field', age, isField', isAge', -⟩
          rw [← strcasestr_eq_some] at isField' isAge'
          rw [isField, Option.some.injEq] at isField'
          rw [← isField', isAge] at isAge'
          cases isAge'
      | some age =>
          exact .inl ⟨field, age, strcasestr_eq_some.mp isField, strcasestr_eq_some.mp isAge, rfl⟩

theorem lifetime_eq_iff {c : AddCall} {n : Nat} : c.lifetime = n ↔ ReadsAs c.data n := by
  rw [lifetime, ReadsAs]
  cases c.maxAge_cases with
  | inl first =>
      have all (number : Int) : FirstMaxAge c.data number ↔ number = c.maxAge :=
        ⟨fun other => firstMaxAge_unique other first, fun same => same ▸ first⟩
      simp only [all, forall_eq]
      split <;> omega
  | inr absent =>
      obtain ⟨none, absent⟩ := absent
      have default : ¬ (-1 : Int) > 0 := by decide
      simp only [absent, and_false, false_or, false_implies, implies_true, and_true, none]
      rw [if_neg default]
      omega

end Cache.AddCall

namespace Cache

def Stands (s : Cache) (a : Addr) (url : Bytes) : Prop :=
  (s.entry a).isSome = true ∧ ∀ b e, s.entry b = some e → e.url = url → b ≤ a

/-- Whatever happens after the response went to `a`, it is found up to `expiry`, as long as it
stands, and not any later. -/
def ServedUntil (t : Cache) (a : Addr) (url : Bytes) (expiry : Int) : Prop :=
  ∀ later u, run Cache.step t later = some u →
    (∀ any now v, u.findCache any now = some (v, some a) → now ≤ expiry) ∧
    (u.Stands a url → ∀ now ≤ expiry, ∃ v, u.findCache url now = some (v, some a))

def KeepsLifetime (t : Cache) (a : Addr) (c : AddCall) : Prop :=
  ∀ n, DeclaresLifetime c.data n → t.ServedUntil a c.url (c.expiryTime + n)

end Cache

namespace Refines

variable {s t u : Cache} {σ τ : Store} {c : Cache.AddCall} {a : Addr} {url : Bytes} {now : Int}

theorem found_fresh (refines : Refines u τ) {v : Cache}
    (found : u.findCache url now = some (v, some a)) :
    ∃ e, u.entry a = some e ∧ e.url = url ∧ e.expired now = false := by
  obtain ⟨w, ran, -⟩ := refines.findCache url now
  rw [found, Option.some.injEq, Prod.mk.injEq] at ran
  have answer := ran.2
  cases newest : τ.newest url with
  | none =>
      rw [Store.findCache_miss newest] at answer
      cases answer
  | some x =>
      obtain ⟨member, isUrl⟩ := τ.newest_mem newest
      cases fresh : x.entry.expired now with
      | true =>
          rw [Store.findCache_expired newest fresh] at answer
          cases answer
      | false =>
          rw [Store.findCache_hit newest fresh, Option.some.injEq] at answer
          subst answer
          exact ⟨x.entry, (refines.choose_spec.entries _ _).mpr member, isUrl, fresh⟩

theorem found_of_stands (refines : Refines u τ) (stands : u.Stands a url) {e : Entry}
    (held : u.entry a = some e) (isUrl : e.url = url) (fresh : e.expired now = false) :
    ∃ v, u.findCache url now = some (v, some a) := by
  have entries := refines.choose_spec.entries
  have newest : τ.newest url = some ⟨a, e⟩ :=
    τ.newest_eq ((entries a e).mp held) isUrl fun y inside same =>
      stands.2 y.addr y.entry ((entries _ _).mpr inside) same
  obtain ⟨v, ran, -⟩ := refines.findCache url now
  rw [Store.findCache_hit newest fresh] at ran
  exact ⟨v, ran⟩

theorem stands_of_added (refines : Refines s σ) (added : s.addCache c = some (t, 1)) :
    t.Stands s.brk c.url := by
  obtain ⟨path, file, e, -, held, -⟩ := refines.entry_of_added added
  obtain ⟨success, result⟩ := refines.of_add added
  refine ⟨by rw [held]; rfl, ?_⟩
  intro b f held' _
  have bound := (σ.add c).1.allocated _ ((result.choose_spec.entries b f).mp held')
  cases σ.add_cases c with
  | inl refused =>
      rw [refused.1] at success
      cases success
  | inr stored =>
      rw [stored.2.2.2.1, ← refines.choose_spec.brk] at bound
      exact Nat.le_of_lt_succ bound

theorem servedUntil_iff (refines : Refines s σ) (added : s.addCache c = some (t, 1))
    (clock : 0 < c.expiresAt) (expiry : Int) :
    t.ServedUntil s.brk c.url expiry ↔ expiry = c.expiresAt := by
  obtain ⟨path, file, e, made, held, stays⟩ := refines.entry_of_added added
  obtain ⟨url, -, expires⟩ := Cache.AddCall.entry_shape made
  have expired_iff (f : Entry) (same : f.expiresAt = e.expiresAt) (now : Int) :
      f.expired now = false ↔ now ≤ c.expiresAt := by
    simp [Entry.expired, same, expires, clock]
  have result := (refines.of_add added).2
  constructor
  · intro served
    obtain ⟨never, upTo⟩ := served [] t rfl
    have stands := refines.stands_of_added added
    apply le_antisymm
    · obtain ⟨v, found⟩ := upTo stands expiry le_rfl
      obtain ⟨f, held', -, fresh⟩ := result.found_fresh found
      rw [held, Option.some.injEq] at held'
      subst held'
      exact (expired_iff e rfl expiry).mp fresh
    · have fresh := (expired_iff e rfl c.expiresAt).mpr le_rfl
      obtain ⟨v, found⟩ := result.found_of_stands stands held url fresh
      exact never c.url c.expiresAt v found
  · rintro rfl later u reached
    have final := result.after_run reached
    constructor
    · intro any now v found
      obtain ⟨f, held', -, fresh⟩ := final.found_fresh found
      exact (expired_iff f (stays later u reached f held').2.2.2.2 now).mp fresh
    · intro stands now early
      obtain ⟨f, held'⟩ := Option.isSome_iff_exists.mp stands.1
      obtain ⟨url', -, -, -, same⟩ := stays later u reached f held'
      exact final.found_of_stands stands held' (url'.trans url) ((expired_iff f same now).mpr early)

end Refines

theorem keepsLifetime_iff {policy : CacheEvictionPolicy} {cacheDir : Bytes} {disk : Disk}
    {ops : List Op} {s t : Cache} {c : Cache.AddCall}
    (reached : run Cache.step (Cache.cacheInit policy cacheDir disk) ops = some s)
    (added : s.addCache c = some (t, 1)) (clock : 0 ≤ c.expiryTime) :
    t.KeepsLifetime s.brk c ↔ ∀ n, DeclaresLifetime c.data n → ReadsAs c.data n := by
  obtain ⟨σ, refines⟩ := Refines.of_run reached
  have expiry := c.expiresAt_eq
  have later : 0 < c.expiresAt := by
    have positive := c.lifetime_pos
    omega
  apply forall_congr'
  intro n
  rw [refines.servedUntil_iff added later, ← Cache.AddCall.lifetime_eq_iff, expiry]
  constructor
  · intro served declared
    have same := served declared
    omega
  · intro reads declared
    rw [reads declared]

theorem minute_keepsLifetime :
    ∃ t, (Cache.cacheInit .lru [] .empty).addCache (cacheControlCall "Cache-Control: max-age=60") =
        some (t, 1) ∧
      t.KeepsLifetime 0 (cacheControlCall "Cache-Control: max-age=60") := by
  have stored : ((Cache.cacheInit .lru [] .empty).addCache
      (cacheControlCall "Cache-Control: max-age=60")).map (·.2) = some 1 := by decide
  obtain ⟨⟨t, result⟩, added, rfl⟩ := Option.map_eq_some_iff.mp stored
  refine ⟨t, added, (keepsLifetime_iff (run_nothing _) added (by decide)).mpr ?_⟩
  have declared : cacheControl (cacheControlCall "Cache-Control: max-age=60").data =
      [ascii "max-age=60"] := by decide
  have reads : (cacheControlCall "Cache-Control: max-age=60").lifetime = (60 : Nat) := by decide
  intro n declares
  cases declares with
  | inl given =>
      obtain ⟨-, directive, member, value⟩ := given
      rw [declared, List.mem_singleton] at member
      subst member
      have minute : n = 60 := Option.some.inj (value.symm.trans (by decide))
      exact minute ▸ Cache.AddCall.lifetime_eq_iff.mp reads
  | inr none =>
      have named := none.2 (ascii "max-age=60") (by rw [declared]; exact List.mem_singleton_self _)
      exact absurd named (by decide)

theorem zero_served_for_hour :
    ∃ t, (Cache.cacheInit .lru [] .empty).addCache (cacheControlCall "Cache-Control: max-age=0") =
        some (t, 1) ∧
      DeclaresLifetime (cacheControlCall "Cache-Control: max-age=0").data 0 ∧
      (t.findCache (ascii "u") 3600).map (·.2) = some (some 0) ∧
      ¬ t.KeepsLifetime 0 (cacheControlCall "Cache-Control: max-age=0") := by
  have stored : ((Cache.cacheInit .lru [] .empty).addCache
      (cacheControlCall "Cache-Control: max-age=0")).map (·.2) = some 1 := by decide
  have served : (((Cache.cacheInit .lru [] .empty).addCache
      (cacheControlCall "Cache-Control: max-age=0")).bind fun r =>
        r.1.findCache (ascii "u") 3600).map (·.2) = some (some 0) := by decide
  have declares : DeclaresLifetime (cacheControlCall "Cache-Control: max-age=0").data 0 :=
    .inl ⟨by decide, ascii "max-age=0", by decide, by decide⟩
  obtain ⟨⟨t, result⟩, added, rfl⟩ := Option.map_eq_some_iff.mp stored
  rw [added, Option.bind_some] at served
  refine ⟨t, added, declares, served, ?_⟩
  intro keeps
  obtain ⟨⟨v, answer⟩, found, rfl⟩ := Option.map_eq_some_iff.mp served
  have early := (keeps 0 declares [] t rfl).1 (ascii "u") 3600 v found
  exact absurd early (by decide)

end ProxyServer
