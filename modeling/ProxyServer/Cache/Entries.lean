import ProxyServer.Cache.Operations
import Mathlib.Algebra.Order.BigOperators.Group.List
import Mathlib.Algebra.Order.Group.Nat

namespace ProxyServer
open Lib

def Item.fixed (x : Item) : Item := ⟨x.addr, { x.entry with uptime := 0, accessCount := 0 }⟩

namespace Store

variable {σ τ : Store}

def Within (τ σ : Store) : Prop := (τ.items.map Item.fixed).Subperm (σ.items.map Item.fixed)

theorem Within.mem (within : Within τ σ) {x : Item} (member : x ∈ τ.items) :
    ∃ y ∈ σ.items, y.fixed = x.fixed :=
  List.mem_map.mp (within.subset (List.mem_map_of_mem member))

theorem Within.total_le (within : Within τ σ) : τ.total ≤ σ.total := by
  have fixed (ρ : Store) : ρ.total = ((ρ.items.map Item.fixed).map weight).sum := by
    rw [total, List.map_map]
    rfl
  obtain ⟨items, perm, sublist⟩ := within
  rw [fixed, fixed, ← (perm.map weight).sum_eq]
  exact (sublist.map _).sum_le_sum fun _ _ => Nat.zero_le _

theorem Within.of_sublist (fewer : τ.items.Sublist σ.items) : Within τ σ :=
  (fewer.map Item.fixed).subperm

theorem remove_within (σ : Store) (x : Item) : Within (σ.remove x) σ :=
  Within.of_sublist List.filter_sublist

theorem modify_within (σ : Store) (a : Addr) (now : Int) :
    Within (σ.modify a (·.touch now)) σ := by
  have same : (σ.modify a (·.touch now)).items.map Item.fixed = σ.items.map Item.fixed := by
    simp only [modify, List.map_map]
    apply List.map_congr_left
    intro x _
    simp only [Function.comp_apply]
    split <;> rfl
  rw [Within, same]

theorem use_within (σ : Store) (a : Addr) (now : Int) : Within (σ.use a now) σ := by
  rw [use]
  split
  · exact ((moveToEnd_perm _ a).map Item.fixed).subperm.trans (σ.modify_within a now)
  · exact σ.modify_within a now

theorem purge_within (σ : Store) (url : Bytes) : Within (σ.purge url) σ := by
  rw [purge]
  cases σ.newest url with
  | none => exact List.Subperm.refl _
  | some x => exact σ.remove_within x

theorem findCache_within (σ : Store) (url : Bytes) (now : Int) :
    Within (σ.findCache url now).1 σ := by
  cases found : σ.newest url with
  | none =>
      rw [findCache_miss found]
      exact List.Subperm.refl _
  | some x =>
      cases fresh : x.entry.expired now with
      | true =>
          rw [findCache_expired found fresh]
          exact σ.remove_within x
      | false =>
          rw [findCache_hit found fresh]
          exact σ.use_within x.addr now

theorem evict_within (σ : Store) (maxCacheSize size : Nat) :
    Within (σ.evict maxCacheSize size) σ :=
  Within.of_sublist (evictLoop_sublist _ _ _ _)

theorem add_cases (σ : Store) (c : Cache.AddCall) :
    ((σ.add c).2 = 0 ∧ Within (σ.add c).1 σ ∧ (σ.add c).1.brk = σ.brk) ∨
      (σ.add c).2 = 1 ∧ c.refused = false ∧
        fits c.maxCacheSize c.elementSize (σ.evict c.maxCacheSize c.elementSize).total = true ∧
        (σ.add c).1.brk = σ.brk + 1 ∧
        ∃ path file e, c.entry path file = some e ∧
          (σ.add c).1.items = (σ.evict c.maxCacheSize c.elementSize).items ++ [⟨σ.brk, e⟩] := by
  have evicted := σ.evict_within c.maxCacheSize c.elementSize
  obtain ⟨brk, -⟩ : (σ.evict c.maxCacheSize c.elementSize).brk = σ.brk ∧ _ :=
    evictLoop_frame c.maxCacheSize c.elementSize σ.items.length σ
  simp only [add]
  split_ifs with refused room calloc
  · exact Or.inl ⟨rfl, List.Subperm.refl _, rfl⟩
  · exact Or.inl ⟨rfl, evicted, brk⟩
  · exact Or.inl ⟨rfl, evicted, brk⟩
  · unfold place
    cases made : c.entry (c.diskPath (σ.evict c.maxCacheSize c.elementSize).cacheDir)
        (c.toDisk (c.diskPath (σ.evict c.maxCacheSize c.elementSize).cacheDir)
          (σ.evict c.maxCacheSize c.elementSize).disk).2 with
    | none =>
        refine Or.inl ⟨by simp [made], ?_⟩
        simp only [made]
        exact ⟨evicted, brk⟩
    | some e =>
        refine Or.inr ⟨by simp [made], by simpa using refused, by simpa using room, ?_, _, _, e,
          made,
          ?_⟩
        · simp only [made, ← brk]
          rfl
        · simp only [made, ← brk]
          rfl

theorem exec_within (σ : Store) {op : Op} (others : ∀ c, op = .add c → (σ.add c).2 ≠ 1) :
    Within (σ.exec op).1 σ := by
  cases op with
  | find url now => exact σ.findCache_within url now
  | add c =>
      rcases σ.add_cases c with ⟨-, within, -⟩ | ⟨added, -⟩
      · exact within
      · exact absurd added (others c rfl)
  | remove =>
      cases chosen : σ.victim with
      | none => simp [exec, chosen, Within, List.Subperm.refl]
      | some x => simpa [exec, chosen] using σ.remove_within x
  | purge url => exact σ.purge_within url
  | clear => exact Within.of_sublist (List.nil_sublist _)
  | setPolicy policy => exact List.Subperm.refl _

theorem brk_le_exec (σ : Store) (op : Op) : σ.brk ≤ (σ.exec op).1.brk := by
  cases op with
  | find url now =>
      change σ.brk ≤ (σ.findCache url now).1.brk
      cases found : σ.newest url with
      | none => rw [findCache_miss found]
      | some x =>
          cases fresh : x.entry.expired now with
          | true => rw [findCache_expired found fresh]; exact le_rfl
          | false =>
              rw [findCache_hit found fresh]
              simp only [use]
              split <;> exact le_rfl
  | add c =>
      rcases σ.add_cases c with ⟨-, -, same⟩ | ⟨-, -, -, next, -⟩
      · exact same.ge
      · exact (Nat.le_succ _).trans next.ge
  | remove => simp only [exec]; cases σ.victim <;> exact le_rfl
  | purge url => simp only [exec, purge]; cases σ.newest url <;> exact le_rfl
  | clear => exact le_rfl
  | setPolicy policy => exact le_rfl

theorem exec_member (σ : Store) (op : Op) {x : Item} (member : x ∈ (σ.exec op).1.items)
    (old : x.addr < σ.brk) : ∃ y ∈ σ.items, y.fixed = x.fixed := by
  by_cases added : ∃ c, op = .add c ∧ (σ.add c).2 = 1
  · obtain ⟨c, rfl, success⟩ := added
    rcases σ.add_cases c with ⟨failed, -⟩ | ⟨-, -, -, -, path, file, e, -, items⟩
    · rw [failed] at success
      cases success
    · rw [exec, items, List.mem_append, List.mem_singleton] at member
      rcases member with kept | rfl
      · exact (σ.evict_within _ _).mem kept
      · exact absurd old (lt_irrefl _)
  · exact (σ.exec_within fun c same success => added ⟨c, same, success⟩).mem member

def Keeps (a : Addr) (f : Item) (σ : Store) : Prop :=
  a < σ.brk ∧ ∀ x ∈ σ.items, x.addr = a → x.fixed = f

theorem Keeps.exec {a : Addr} {f : Item} (keeps : σ.Keeps a f) (op : Op) :
    (σ.exec op).1.Keeps a f := by
  refine ⟨keeps.1.trans_le (σ.brk_le_exec op), ?_⟩
  rintro x member rfl
  obtain ⟨y, inside, same⟩ := σ.exec_member op member keeps.1
  have addr : y.fixed.addr = x.fixed.addr := by rw [same]
  rw [← same]
  exact keeps.2 y inside addr

theorem Keeps.run {a : Addr} {f : Item} (keeps : σ.Keeps a f) (ops : List Op) :
    (ops.foldl (fun σ op => (σ.exec op).1) σ).Keeps a f := by
  induction ops generalizing σ with
  | nil => exact keeps
  | cons op ops ih => exact ih (keeps.exec op)

theorem Keeps.of_added {c : Cache.AddCall} (added : (σ.add c).2 = 1) :
    ∃ path file e, c.entry path file = some e ∧ ⟨σ.brk, e⟩ ∈ (σ.add c).1.items ∧
      (σ.add c).1.Keeps σ.brk (Item.fixed ⟨σ.brk, e⟩) := by
  rcases σ.add_cases c with ⟨failed, -⟩ | ⟨-, -, -, brk, path, file, e, made, items⟩
  · rw [failed] at added
    cases added
  · refine ⟨path, file, e, made, by simp [items], by rw [brk]; exact Nat.lt_succ_self _, ?_⟩
    intro x member here
    rw [items, List.mem_append, List.mem_singleton] at member
    rcases member with kept | rfl
    · obtain ⟨y, inside, same⟩ := (σ.evict_within _ _).mem kept
      have addr : y.fixed.addr = x.fixed.addr := by rw [same]
      exact absurd (addr.trans here) (σ.allocated y inside).ne
    · rfl

end Store

theorem Refines.entry_of_added {s t : Cache} {σ : Store} (refines : Refines s σ)
    {c : Cache.AddCall} (added : s.addCache c = some (t, 1)) :
    ∃ path file e, c.entry path file = some e ∧ t.entry s.brk = some e ∧
      ∀ (later : List Op) (u : Cache), Lib.run Cache.step t later = some u →
        ∀ e', u.entry s.brk = some e' →
          e'.url = e.url ∧ e'.isOnDisk = e.isOnDisk ∧ e'.data = e.data ∧ e'.length = e.length ∧
            e'.expiresAt = e.expiresAt := by
  obtain ⟨success, result⟩ := refines.of_add added
  obtain ⟨path, file, e, made, member, keeps⟩ := Store.Keeps.of_added success.symm
  have brk : s.brk = σ.brk := refines.choose_spec.brk
  have entries := result.choose_spec.entries
  refine ⟨path, file, e, made, brk ▸ (entries σ.brk e).mpr member, ?_⟩
  intro later u reached e' held
  have final := result.after_run reached
  have inside := (final.choose_spec.entries s.brk e').mp held
  have same : Item.fixed ⟨s.brk, e'⟩ = Item.fixed ⟨σ.brk, e⟩ := (keeps.run later).2 _ inside brk
  simp only [Item.fixed, Item.mk.injEq, Entry.mk.injEq] at same
  obtain ⟨-, url, isOnDisk, -, data, length, -, -, expiresAt⟩ := same
  exact ⟨url, isOnDisk, data, length, expiresAt⟩

end ProxyServer
