import ProxyServer.Cache.Model
import ProxyServer.Lib.Evict
import Mathlib.Data.List.MinMax

/-!
# The cache without pointers

What `cache.c` maintains, as a list: the entries under the numbers of their allocations, in the
order of the list from `list_head` to `list_tail`. A greater number is a later insertion.
-/

namespace ProxyServer
open Lib

def weight (x : Item) : Nat := elementSize x.entry.length x.entry.url

def fits (maxCacheSize size total : Nat) : Bool := (total % 2 ^ 64 + size) % 2 ^ 64 ≤ maxCacheSize

def itemKey (policy : CacheEvictionPolicy) (x : Item) : Int := Cache.victimKey policy x.entry

def newestFor (items : List Item) (url : Bytes) : Option Item :=
  (items.filter (·.entry.url = url)).argmax Item.addr

/-- The entries that the eviction loop of a call leaves: those outside the shortest prefix of the
eviction order whose loss makes room. -/
def survivors (policy : CacheEvictionPolicy) (items : List Item) (c : Cache.AddCall) : List Item :=
  items.filter (· ∈ dropToFit weight (fits c.maxCacheSize c.elementSize)
    (rank (itemKey policy) items))

@[ext] structure Store where
  items : List Item
  brk : Addr
  policy : CacheEvictionPolicy
  cacheDir : Bytes
  disk : Disk
  distinct : (items.map Item.addr).Nodup
  allocated : ∀ x ∈ items, x.addr < brk

namespace Store

def init (policy : CacheEvictionPolicy) (cacheDir : Bytes) (disk : Disk) : Store where
  items := []
  brk := 0
  policy
  cacheDir
  disk
  distinct := List.nodup_nil
  allocated := by simp

def newest (σ : Store) (url : Bytes) : Option Item := newestFor σ.items url

def total (σ : Store) : Nat := (σ.items.map weight).sum

def remove (σ : Store) (x : Item) : Store where
  items := σ.items.filter (·.addr ≠ x.addr)
  brk := σ.brk
  policy := σ.policy
  cacheDir := σ.cacheDir
  disk := σ.disk.forget x.entry
  distinct := σ.distinct.sublist (List.filter_sublist.map _)
  allocated y member := σ.allocated y (List.mem_of_mem_filter member)

def modify (σ : Store) (a : Addr) (f : Entry → Entry) : Store where
  items := σ.items.map fun x => if x.addr = a then ⟨x.addr, f x.entry⟩ else x
  brk := σ.brk
  policy := σ.policy
  cacheDir := σ.cacheDir
  disk := σ.disk
  distinct := by
    have same : (fun x : Item => if x.addr = a then ⟨x.addr, f x.entry⟩ else x) =
        fun x => ⟨x.addr, if x.addr = a then f x.entry else x.entry⟩ := by
      funext x
      split <;> rfl
    simpa [same, List.map_map, Function.comp_def] using σ.distinct
  allocated := by
    intro y member
    obtain ⟨x, inside, rfl⟩ := List.mem_map.mp member
    have bound := σ.allocated x inside
    split <;> exact bound

def moveToEnd (σ : Store) (a : Addr) : Store where
  items := σ.items.filter (·.addr ≠ a) ++ σ.items.filter (·.addr = a)
  brk := σ.brk
  policy := σ.policy
  cacheDir := σ.cacheDir
  disk := σ.disk
  distinct := by
    have perm : (σ.items.filter (·.addr ≠ a) ++ σ.items.filter (·.addr = a)).Perm σ.items := by
      simpa using List.perm_append_comm.trans (List.filter_append_perm (·.addr = a) σ.items)
    exact (perm.map Item.addr).nodup_iff.mpr σ.distinct
  allocated y member := by
    refine σ.allocated y ?_
    rcases List.mem_append.mp member with h | h <;> exact List.mem_of_mem_filter h

def insert (σ : Store) (e : Entry) : Store where
  items := σ.items ++ [⟨σ.brk, e⟩]
  brk := σ.brk + 1
  policy := σ.policy
  cacheDir := σ.cacheDir
  disk := σ.disk
  distinct := by
    rw [List.map_append, List.nodup_append]
    refine ⟨σ.distinct, List.nodup_singleton _, ?_⟩
    intro a inside b last
    obtain ⟨x, member, rfl⟩ := List.mem_map.mp inside
    have bound := σ.allocated x member
    simp only [List.map_cons, List.map_nil, List.mem_singleton] at last
    exact last ▸ Nat.ne_of_lt bound
  allocated y member := by
    rcases List.mem_append.mp member with h | h
    · exact Nat.lt_succ_of_lt (σ.allocated y h)
    · simp_all

def withDisk (σ : Store) (disk : Disk) : Store := { σ with disk }

def use (σ : Store) (a : Addr) (now : Int) : Store :=
  let touched := σ.modify a (·.touch now)
  if σ.policy = .lru then touched.moveToEnd a else touched

def find (σ : Store) (url : Bytes) (now : Int) : Store × Cache.Lookup :=
  match σ.newest url with
  | none => (σ, .miss)
  | some x => if x.entry.expired now then (σ, .expired) else (σ.use x.addr now, .hit x.addr)

def purge (σ : Store) (url : Bytes) : Store := (σ.newest url).elim σ σ.remove

def victim (σ : Store) : Option Item := (rank (itemKey σ.policy) σ.items).head?

def evictLoop (maxCacheSize size : Nat) : Nat → Store → Store
  | 0, σ => σ
  | n + 1, σ =>
      if fits maxCacheSize size σ.total then σ
      else match σ.victim with
        | none => σ
        | some x => evictLoop maxCacheSize size n (σ.remove x)

def evict (σ : Store) (maxCacheSize size : Nat) : Store :=
  evictLoop maxCacheSize size σ.items.length σ

def place (σ : Store) (c : Cache.AddCall) : Store × Int :=
  let placed := c.toDisk (c.diskPath σ.cacheDir) σ.disk
  match c.entry (c.diskPath σ.cacheDir) placed.2 with
  | none => (σ.withDisk placed.1, 0)
  | some e => ((σ.withDisk placed.1).insert e, 1)

def add (σ : Store) (c : Cache.AddCall) : Store × Int :=
  if c.refused then (σ, 0)
  else
    let σ := σ.evict c.maxCacheSize c.elementSize
    if fits c.maxCacheSize c.elementSize σ.total = false then (σ, 0)
    else if c.callocOk = false then (σ, 0)
    else σ.place c

def clear (σ : Store) : Store where
  items := []
  brk := σ.brk
  policy := σ.policy
  cacheDir := σ.cacheDir
  disk := σ.items.foldl (fun d x => d.forget x.entry) σ.disk
  distinct := List.nodup_nil
  allocated := by simp

theorem entry_unique (σ : Store) {a : Addr} {e f : Entry} (left : ⟨a, e⟩ ∈ σ.items)
    (right : ⟨a, f⟩ ∈ σ.items) : e = f :=
  congrArg Item.entry (List.inj_on_of_nodup_map σ.distinct left right rfl)

theorem items_nodup (σ : Store) : σ.items.Nodup := σ.distinct.of_map

theorem remove_items (σ : Store) {x : Item} (member : x ∈ σ.items) :
    (σ.remove x).items = σ.items.erase x := by
  rw [σ.items_nodup.erase_eq_filter]
  apply List.filter_congr
  intro y inside
  have same : y.addr = x.addr ↔ y = x :=
    ⟨fun addr => List.inj_on_of_nodup_map σ.distinct inside member addr, congrArg Item.addr⟩
  simp only [ne_eq, same, decide_not]
  rfl

theorem remove_total (σ : Store) {x : Item} (member : x ∈ σ.items) :
    σ.total = weight x + (σ.remove x).total := by
  rw [total, total, remove_items σ member, ((List.perm_cons_erase member).map weight).sum_eq]
  rfl

theorem remove_split (σ : Store) {l r : List Item} {x : Item} (items : σ.items = l ++ x :: r) :
    (σ.remove x).items = l ++ r := by
  have apart : x ∉ l := fun inside =>
    (List.nodup_middle.mp (items ▸ σ.items_nodup)).notMem (List.mem_append_left r inside)
  rw [σ.remove_items (by simp [items]), items, List.erase_append_right _ apart,
    List.erase_cons_head]

theorem mem_remove (σ : Store) {x y : Item} :
    y ∈ (σ.remove x).items ↔ y ∈ σ.items ∧ y.addr ≠ x.addr := by
  simp [remove]

theorem modify_addr (σ : Store) (a : Addr) (f : Entry → Entry) :
    (σ.modify a f).items.map Item.addr = σ.items.map Item.addr := by
  simp only [modify, List.map_map]
  apply List.map_congr_left
  intro x _
  simp only [Function.comp_apply]
  split <;> rfl

theorem mem_modify (σ : Store) {a b : Addr} {f : Entry → Entry} {e : Entry} :
    ⟨b, e⟩ ∈ (σ.modify a f).items ↔
      ∃ e', ⟨b, e'⟩ ∈ σ.items ∧ e = if b = a then f e' else e' := by
  simp only [modify, List.mem_map]
  constructor
  · intro given
    obtain ⟨⟨c, g⟩, inside, same⟩ := given
    split at same <;> cases same
    · exact ⟨g, inside, by simp_all⟩
    · exact ⟨e, inside, by simp_all⟩
  · intro given
    obtain ⟨g, inside, rfl⟩ := given
    refine ⟨⟨b, g⟩, inside, ?_⟩
    simp only
    split <;> rfl

theorem moveToEnd_perm (σ : Store) (a : Addr) : (σ.moveToEnd a).items.Perm σ.items := by
  simpa [moveToEnd] using
    List.perm_append_comm.trans (List.filter_append_perm (·.addr = a) σ.items)

theorem moveToEnd_split (σ : Store) {l r : List Item} {x : Item} (items : σ.items = l ++ x :: r) :
    (σ.moveToEnd x.addr).items = l ++ r ++ [x] := by
  have rest := σ.remove_split items
  have alone : σ.items.filter (·.addr = x.addr) = [x] := by
    have distinct := σ.distinct
    rw [items, List.map_append, List.map_cons] at distinct
    have apart := (List.nodup_middle.mp distinct).notMem
    simp only [List.mem_append, List.mem_map, not_or, not_exists, not_and] at apart
    rw [items, List.filter_append, List.filter_cons_of_pos (by simp),
      List.filter_eq_nil_iff.mpr (by simpa using apart.1),
      List.filter_eq_nil_iff.mpr (by simpa using apart.2), List.nil_append]
  simp only [moveToEnd, alone]
  exact congrArg (· ++ [x]) rest

theorem mem_use (σ : Store) {a b : Addr} {now : Int} {e : Entry} :
    ⟨b, e⟩ ∈ (σ.use a now).items ↔
      ∃ e', ⟨b, e'⟩ ∈ σ.items ∧ e = if b = a then e'.touch now else e' := by
  rw [← mem_modify, use]
  split
  · rw [(moveToEnd_perm _ _).mem_iff]
  · rfl

theorem newest_mem (σ : Store) {url : Bytes} {x : Item} (found : σ.newest url = some x) :
    x ∈ σ.items ∧ x.entry.url = url := by
  simpa using List.argmax_mem (Option.mem_def.mpr found)

theorem newest_max (σ : Store) {url : Bytes} {x y : Item} (found : σ.newest url = some x)
    (member : y ∈ σ.items) (url_eq : y.entry.url = url) : y.addr ≤ x.addr := by
  have inside : y ∈ σ.items.filter (·.entry.url = url) := by simp [member, url_eq]
  exact List.le_of_mem_argmax inside (Option.mem_def.mpr found)

theorem newest_none (σ : Store) {url : Bytes} :
    σ.newest url = none ↔ ∀ x ∈ σ.items, x.entry.url ≠ url := by
  simp [newest, newestFor, List.argmax_eq_none, List.filter_eq_nil_iff]

theorem newest_eq (σ : Store) {url : Bytes} {x : Item} (member : x ∈ σ.items)
    (url_eq : x.entry.url = url) (greatest : ∀ y ∈ σ.items, y.entry.url = url → y.addr ≤ x.addr) :
    σ.newest url = some x := by
  cases found : σ.newest url with
  | none => exact absurd url_eq (σ.newest_none.mp found x member)
  | some y =>
      obtain ⟨inside, same⟩ := σ.newest_mem found
      have addr : y.addr = x.addr :=
        Nat.le_antisymm (greatest y inside same) (σ.newest_max found member url_eq)
      rw [List.inj_on_of_nodup_map σ.distinct inside member addr]

theorem victim_mem (σ : Store) {x : Item} (chosen : σ.victim = some x) : x ∈ σ.items :=
  (rank_perm _ _).mem_iff.mp (List.mem_of_mem_head? (Option.mem_def.mpr chosen))

theorem victim_none (σ : Store) : σ.victim = none ↔ σ.items = [] := by
  rw [victim, List.head?_eq_none_iff]
  constructor
  · intro empty
    simpa [empty] using (rank_perm (itemKey σ.policy) σ.items).symm
  · intro empty
    simp [empty, rank]

theorem evictLoop_done {maxCacheSize size : Nat} {σ : Store} (n : Nat)
    (done : fits maxCacheSize size σ.total = true ∨ σ.items = []) :
    evictLoop maxCacheSize size n σ = σ := by
  cases n with
  | zero => rfl
  | succ n =>
      unfold evictLoop
      rcases done with room | empty
      · rw [if_pos room]
      · rw [σ.victim_none.mpr empty]
        split <;> rfl

theorem evictLoop_step {maxCacheSize size : Nat} {σ : Store} {x : Item} (n : Nat)
    (full : fits maxCacheSize size σ.total = false) (chosen : σ.victim = some x) :
    evictLoop maxCacheSize size (n + 1) σ = evictLoop maxCacheSize size n (σ.remove x) := by
  rw [evictLoop, chosen, full]
  rfl

theorem evictLoop_items (maxCacheSize size n : Nat) (σ : Store) :
    (evictLoop maxCacheSize size n σ).items =
      Lib.evict (itemKey σ.policy) weight (fits maxCacheSize size) n σ.items := by
  induction n generalizing σ with
  | zero => rfl
  | succ n ih =>
      unfold evictLoop Lib.evict
      rw [total]
      by_cases room : fits maxCacheSize size (σ.items.map weight).sum = true
      · rw [if_pos room, if_pos room]
      · rw [if_neg room, if_neg room]
        cases chosen : σ.victim with
        | none =>
            rw [victim] at chosen
            rw [chosen]
        | some x =>
            have member := σ.victim_mem chosen
            rw [victim] at chosen
            rw [chosen]
            simp only
            rw [ih, remove_items σ member]
            rfl

theorem evictLoop_frame (maxCacheSize size n : Nat) (σ : Store) :
    (evictLoop maxCacheSize size n σ).brk = σ.brk ∧
      (evictLoop maxCacheSize size n σ).policy = σ.policy ∧
      (evictLoop maxCacheSize size n σ).cacheDir = σ.cacheDir := by
  induction n generalizing σ with
  | zero => exact ⟨rfl, rfl, rfl⟩
  | succ n ih =>
      unfold evictLoop
      split
      · exact ⟨rfl, rfl, rfl⟩
      · split
        · exact ⟨rfl, rfl, rfl⟩
        · exact ih _

theorem evictLoop_sublist (maxCacheSize size n : Nat) (σ : Store) :
    (evictLoop maxCacheSize size n σ).items.Sublist σ.items := by
  induction n generalizing σ with
  | zero => exact List.Sublist.refl _
  | succ n ih =>
      unfold evictLoop
      split
      · exact List.Sublist.refl _
      · split
        · exact List.Sublist.refl _
        · exact (ih _).trans List.filter_sublist

instance : RightCommutative fun (d : Disk) (x : Item) => d.forget x.entry :=
  ⟨fun d x y => d.forget_comm x.entry y.entry⟩

theorem evictLoop_disk (maxCacheSize size n : Nat) (σ : Store) :
    (evictLoop maxCacheSize size n σ).disk =
      (σ.items.filter (· ∉ (evictLoop maxCacheSize size n σ).items)).foldl
        (fun d x => d.forget x.entry) σ.disk := by
  have nothing (τ : Store) : τ.items.filter (· ∉ τ.items) = [] :=
    List.filter_eq_nil_iff.mpr (by simp)
  induction n generalizing σ with
  | zero => rw [evictLoop, nothing, List.foldl_nil]
  | succ n ih =>
      by_cases room : fits maxCacheSize size σ.total = true
      · rw [evictLoop_done _ (Or.inl room), nothing, List.foldl_nil]
      · cases chosen : σ.victim with
        | none =>
            rw [evictLoop_done _ (Or.inr (σ.victim_none.mp chosen)), nothing, List.foldl_nil]
        | some x =>
            rw [evictLoop_step n (by simpa using room) chosen, ih]
            have member := σ.victim_mem chosen
            have gone : x ∉ (evictLoop maxCacheSize size n (σ.remove x)).items := fun inside =>
              (σ.mem_remove.mp ((evictLoop_sublist _ _ _ _).subset inside)).2 rfl
            have perm := (List.perm_cons_erase member).filter
              (· ∉ (evictLoop maxCacheSize size n (σ.remove x)).items)
            rw [List.filter_cons_of_pos (by simpa using gone), ← σ.remove_items member] at perm
            rw [perm.foldl_eq, List.foldl_cons]
            rfl

theorem evict_survivors (σ : Store) (c : Cache.AddCall) :
    (σ.evict c.maxCacheSize c.elementSize).items = survivors σ.policy σ.items c := by
  rw [evict, evictLoop_items, evict_eq _ _ _ σ.items_nodup le_rfl]
  exact List.filter_congr fun x _ => decide_eq_decide.mpr Iff.rfl

theorem survivors_subset (policy : CacheEvictionPolicy) (items : List Item) (c : Cache.AddCall) :
    survivors policy items c ⊆ items :=
  List.filter_subset_self _

theorem place_eq (σ : Store) {c : Cache.AddCall} (malloc : c.mallocOk = true) :
    ∃ disk e, σ.place c = ((σ.withDisk disk).insert e, 1) ∧
      e.url = c.url ∧ e.length = c.size ∧ e.expiresAt = c.expiresAt := by
  unfold place
  cases made : c.entry (c.diskPath σ.cacheDir) (c.toDisk (c.diskPath σ.cacheDir) σ.disk).2 with
  | none =>
      cases file : (c.toDisk (c.diskPath σ.cacheDir) σ.disk).2 <;>
        simp [Cache.AddCall.entry, file, malloc] at made
  | some e =>
      simp only [made]
      exact ⟨_, e, rfl, Cache.AddCall.entry_shape made⟩

theorem add_items (σ : Store) {c : Cache.AddCall} (accepted : c.refused = false) :
    ∃ new, (σ.add c).1.items = survivors σ.policy σ.items c ++ new ∧
      ∀ x ∈ new, x.addr = σ.brk ∧ x.entry.url = c.url := by
  obtain ⟨brk, -⟩ := evictLoop_frame c.maxCacheSize c.elementSize σ.items.length σ
  rw [← evict_survivors]
  simp only [add, accepted, Bool.false_eq_true, ↓reduceIte]
  split_ifs
  · exact ⟨[], by simp, by simp⟩
  · exact ⟨[], by simp, by simp⟩
  · unfold place
    cases made : c.entry (c.diskPath (σ.evict c.maxCacheSize c.elementSize).cacheDir)
        (c.toDisk (c.diskPath (σ.evict c.maxCacheSize c.elementSize).cacheDir)
          (σ.evict c.maxCacheSize c.elementSize).disk).2 with
    | none => exact ⟨[], by simp [made, withDisk], by simp⟩
    | some e =>
        exact ⟨[⟨σ.brk, e⟩], by simp only [made, ← brk]; rfl,
          by simp [(Cache.AddCall.entry_shape made).1]⟩

theorem add_eq (σ : Store) {c : Cache.AddCall} (accepted : c.refused = false)
    (room : fits c.maxCacheSize c.elementSize (σ.evict c.maxCacheSize c.elementSize).total = true)
    (calloc : c.callocOk = true) :
    σ.add c = (σ.evict c.maxCacheSize c.elementSize).place c := by
  simp [add, accepted, room, calloc]

end Store
end ProxyServer
