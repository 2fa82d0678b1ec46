import ProxyServer.Cache.Operations

namespace ProxyServer
open Lib

def Entry.content (e : Entry) (disk : Disk) : Bytes × Int :=
  ((e.data.read disk).take e.length.toNat, e.length)

namespace Cache.AddCall

def WellFormed (c : AddCall) : Prop := 0 ≤ c.size ∧ c.size ≤ c.data.length

instance (c : AddCall) : Decidable c.WellFormed := inferInstanceAs (Decidable (_ ∧ _))

def content (c : AddCall) : Bytes × Int := (c.data.take c.size.toNat, c.size)

def opens (c : AddCall) : Bool := c.size > 128 * 1024 ∧ c.openOk

def stores (c : AddCall) : Bool := (c.opens ∧ c.written = c.size ∧ c.mmapOk) ∨ c.mallocOk

end Cache.AddCall

def Op.WellFormed : Op → Prop
  | .add c => c.WellFormed
  | _ => True

instance (op : Op) : Decidable op.WellFormed := by
  cases op <;> unfold Op.WellFormed <;> infer_instance

namespace Cache.AddCall

variable {c : AddCall} {path : Bytes} {d : Disk} {e : Entry}

theorem toDisk_closed (closed : c.opens = false) : c.toDisk path d = (d, none) := by
  have skipped : ¬(c.size > 128 * 1024 ∧ c.openOk = true) := by simpa [opens] using closed
  rw [toDisk, if_neg skipped]

theorem toDisk_opens (path : Bytes) (d : Disk) (opens : c.opens = true) :
    ∃ file, (d.names path = some file ∨ d.names path = none ∧ file = d.nextInode) ∧
      (c.toDisk path d).1.files = Function.update d.files file (c.data.take c.written.toNat) ∧
      file < (c.toDisk path d).1.nextInode ∧ d.nextInode ≤ (c.toDisk path d).1.nextInode ∧
      (c.toDisk path d).2 = if c.written = c.size ∧ c.mmapOk then some file else none := by
  have gate : c.size > 128 * 1024 ∧ c.openOk = true := by simpa [AddCall.opens] using opens
  rw [toDisk, if_pos gate]
  unfold Disk.openTrunc
  split
  · rename_i file found
    refine ⟨file, Or.inl found, ?_, d.named path file found, le_rfl, rfl⟩
    simp [Disk.write]
  · rename_i found
    refine ⟨d.nextInode, Or.inr ⟨found, rfl⟩, ?_, Nat.lt_succ_self _, Nat.le_succ _, rfl⟩
    simp [Disk.write]

theorem toDisk_nextInode (c : AddCall) (path : Bytes) (d : Disk) :
    d.nextInode ≤ (c.toDisk path d).1.nextInode := by
  cases gate : c.opens with
  | false => rw [toDisk_closed gate]
  | true =>
      obtain ⟨_, _, _, _, grows, _⟩ := toDisk_opens path d gate
      exact grows

theorem toDisk_content (mapped : ∀ file, e.data = .mapped file → file < d.nextInode) :
    e.content (c.toDisk path d).1 = e.content d ↔
      (c.opens = true → ∀ file, e.data = .mapped file → d.names path = some file →
        (c.data.take c.written.toNat).take e.length.toNat =
          (d.files file).take e.length.toNat) := by
  cases gate : c.opens with
  | false => simp [toDisk_closed gate]
  | true =>
      obtain ⟨file, named, files, -⟩ := toDisk_opens path d gate
      cases data : e.data with
      | memory bytes => simp [Entry.content, data, Payload.read]
      | mapped other =>
          simp only [Entry.content, data, Payload.read, files, Prod.mk.injEq, and_true,
            forall_const, Payload.mapped.injEq, forall_eq']
          by_cases same : other = file
          · subst same
            have found : d.names path = some other := by
              rcases named with found | ⟨-, fresh⟩
              · exact found
              · exact absurd fresh (Nat.ne_of_lt (mapped other data))
            simp [found]
          · have elsewhere : d.names path ≠ some other := by
              rcases named with found | ⟨missing, -⟩
              · simpa [found] using Ne.symm same
              · simp [missing]
            simp [Function.update_of_ne same, elsewhere]

theorem entry_none : c.entry path (c.toDisk path d).2 = none ↔ c.stores = false := by
  cases gate : c.opens with
  | false => simp [toDisk_closed gate, entry, stores, gate]
  | true =>
      obtain ⟨file, -, -, -, -, result⟩ := toDisk_opens path d gate
      rw [result]
      by_cases kept : c.written = c.size ∧ c.mmapOk = true
      · simp [entry, stores, gate, kept]
      · simp [entry, stores, gate, kept]

theorem entry_inHeap (absent : (c.toDisk path d).2 = none)
    (made : c.entry path (c.toDisk path d).2 = some e) :
    e.data = .memory (c.data.take c.size.toNat ++ [0]) ∧ e.length = c.size := by
  simp only [entry, absent, Option.ite_none_right_eq_some, Option.some.injEq] at made
  simp [← made.2]

theorem entry_mapped (made : c.entry path (c.toDisk path d).2 = some e) {file : Inode}
    (data : e.data = .mapped file) : file < (c.toDisk path d).1.nextInode := by
  cases placed : (c.toDisk path d).2 with
  | none => simp [(entry_inHeap placed made).1] at data
  | some other =>
      cases gate : c.opens with
      | false => simp [toDisk_closed gate] at placed
      | true =>
          obtain ⟨opened, -, -, exists_file, -, result⟩ := toDisk_opens path d gate
          rw [placed] at result made
          simp only [entry, Option.some.injEq] at made
          simp only [← made, Payload.mapped.injEq] at data
          split at result
          · rw [← data, Option.some.inj result]
            exact exists_file
          · cases result

theorem entry_content (valid : c.WellFormed)
    (made : c.entry path (c.toDisk path d).2 = some e) :
    e.content (c.toDisk path d).1 = c.content := by
  have inMemory (absent : (c.toDisk path d).2 = none) :
      e.content (c.toDisk path d).1 = c.content := by
    obtain ⟨data, length⟩ := entry_inHeap absent made
    have bound : c.size.toNat ≤ c.data.length := by
      have := valid.2
      omega
    simp [Entry.content, Payload.read, content, data, length, bound]
  cases gate : c.opens with
  | false => exact inMemory (by rw [toDisk_closed gate])
  | true =>
      obtain ⟨file, -, files, -, -, result⟩ := toDisk_opens path d gate
      by_cases kept : c.written = c.size ∧ c.mmapOk = true
      · rw [if_pos kept] at result
        simp only [entry, result, Option.some.injEq] at made
        rw [← made]
        simp [Entry.content, Payload.read, content, files, kept.1]
      · exact inMemory (by rw [result, if_neg kept])

end Cache.AddCall

/-- A cache and, for each URL, the response of the latest successful `AddCache` since the last
`Cache_purge` of the URL and the last `Cache_clear`. -/
structure Watched where
  cache : Cache
  latest : Bytes → Option (Bytes × Int)

namespace Watched

def init (policy : CacheEvictionPolicy) (cacheDir : Bytes) (disk : Disk) : Watched :=
  ⟨Cache.cacheInit policy cacheDir disk, fun _ => none⟩

def record (latest : Bytes → Option (Bytes × Int)) :
    Op → Reply → Bytes → Option (Bytes × Int)
  | .add c, .added 1 => Function.update latest c.url (some c.content)
  | .purge url, _ => Function.update latest url none
  | .clear, _ => fun _ => none
  | _, _ => latest

def step (w : Watched) (op : Op) : Option Watched :=
  if op.WellFormed then (w.cache.exec op).map fun r => ⟨r.1, record w.latest op r.2⟩ else none

def LatestOnly (w : Watched) : Prop :=
  (∀ url now, ∃ t answer, w.cache.findCache url now = some (t, answer) ∧
    ∀ a, answer = some a →
      ∃ e, t.entry a = some e ∧ w.latest url = some (e.content t.disk)) ∧
  ∀ x ∈ w.cache.items, ∀ y ∈ w.cache.items, x.entry.url = y.entry.url → x = y

end Watched

section Survivors
variable (policy : CacheEvictionPolicy) (items : List Item) (c : Cache.AddCall)

def accepted : Bool :=
  !c.refused && fits c.maxCacheSize c.elementSize (((survivors policy items c).map weight).sum) &&
    c.callocOk

def opened (cacheDir : Bytes) (disk : Disk) : Option Inode :=
  ((items.filter (· ∉ survivors policy items c)).foldl (fun d x => d.forget x.entry) disk).names
    (c.diskPath cacheDir)

/-- No entry with the URL of the call survives its evictions, and no survivor is mapped from the
file that it writes, unless that gets to hold the same bytes. -/
def Supersedes (cacheDir : Bytes) (disk : Disk) : Prop :=
  accepted policy items c = true →
    (c.stores = true → ∀ x ∈ survivors policy items c, x.entry.url ≠ c.url) ∧
    (c.opens = true → ∀ x ∈ survivors policy items c, ∀ file, x.entry.data = .mapped file →
      opened policy items c cacheDir disk = some file →
      (c.data.take c.written.toNat).take x.entry.length.toNat =
        (disk.files file).take x.entry.length.toNat)

end Survivors

def Cache.Supersedes (s : Cache) : Op → Prop
  | .add c => ProxyServer.Supersedes s.policy s.items c s.cacheDir s.disk
  | _ => True

namespace Store

variable {σ : Store} {latest : Bytes → Option (Bytes × Int)}

structure Current (σ : Store) (latest : Bytes → Option (Bytes × Int)) : Prop where
  content : ∀ x ∈ σ.items, latest x.entry.url = some (x.entry.content σ.disk)
  unique : ∀ x ∈ σ.items, ∀ y ∈ σ.items, x.entry.url = y.entry.url → x = y

def Mapped (σ : Store) : Prop :=
  ∀ x ∈ σ.items, ∀ file, x.entry.data = .mapped file → file < σ.disk.nextInode

theorem content_of_files {d d' : Disk} (files : d'.files = d.files) (e : Entry) :
    e.content d' = e.content d := by
  unfold Entry.content Payload.read
  rw [files]

theorem foldl_forget_frame (xs : List Item) (d : Disk) :
    (xs.foldl (fun d x => d.forget x.entry) d).files = d.files ∧
      (xs.foldl (fun d x => d.forget x.entry) d).nextInode = d.nextInode := by
  induction xs generalizing d with
  | nil => exact ⟨rfl, rfl⟩
  | cons x xs ih =>
      obtain ⟨files, next⟩ := d.forget_frame x.entry
      exact ⟨(ih _).1.trans files, (ih _).2.trans next⟩

theorem Current.shrink (current : σ.Current latest) {τ : Store} (fewer : τ.items ⊆ σ.items)
    (files : τ.disk.files = σ.disk.files) : τ.Current latest where
  content x member := by
    rw [content_of_files files]
    exact current.content x (fewer member)
  unique x left y right := current.unique x (fewer left) y (fewer right)

theorem Mapped.shrink (mapped : σ.Mapped) {τ : Store} (fewer : τ.items ⊆ σ.items)
    (next : σ.disk.nextInode ≤ τ.disk.nextInode) : τ.Mapped :=
  fun x member file data => (mapped x (fewer member) file data).trans_le next

theorem Current.remove (current : σ.Current latest) (x : Item) : (σ.remove x).Current latest :=
  current.shrink (List.filter_subset_self _) (σ.disk.forget_frame x.entry).1

theorem Mapped.remove (mapped : σ.Mapped) (x : Item) : (σ.remove x).Mapped :=
  mapped.shrink (List.filter_subset_self _) (σ.disk.forget_frame x.entry).2.ge

theorem use_frame (σ : Store) (a : Addr) (now : Int) : (σ.use a now).disk = σ.disk := by
  unfold use
  split <;> rfl

theorem use_member (σ : Store) {a : Addr} {now : Int} {y : Item}
    (member : y ∈ (σ.use a now).items) :
    ∃ x ∈ σ.items, x.addr = y.addr ∧ x.entry.url = y.entry.url ∧ x.entry.data = y.entry.data ∧
      x.entry.length = y.entry.length := by
  obtain ⟨e, inside, shape⟩ := (σ.mem_use (b := y.addr) (e := y.entry)).mp member
  refine ⟨_, inside, rfl, ?_⟩
  rw [shape]
  split <;> exact ⟨rfl, rfl, rfl⟩

theorem Current.use (current : σ.Current latest) (a : Addr) (now : Int) :
    (σ.use a now).Current latest where
  content y member := by
    obtain ⟨x, inside, -, url, data, length⟩ := σ.use_member member
    rw [← url, current.content x inside, use_frame, Entry.content, Entry.content, data, length]
  unique y left z right := by
    obtain ⟨x, inside, addr, url, -⟩ := σ.use_member left
    obtain ⟨x', inside', addr', url', -⟩ := σ.use_member right
    intro same
    have one := current.unique x inside x' inside' (by rw [url, url', same])
    exact List.inj_on_of_nodup_map (σ.use a now).distinct left right (by rw [← addr, ← addr', one])

theorem Mapped.use (mapped : σ.Mapped) (a : Addr) (now : Int) : (σ.use a now).Mapped := by
  intro y member file data
  obtain ⟨x, inside, -, -, same, -⟩ := σ.use_member member
  rw [use_frame]
  exact mapped x inside file (same.trans data)

theorem evict_disk (σ : Store) (c : Cache.AddCall) :
    (σ.evict c.maxCacheSize c.elementSize).disk =
      (σ.items.filter (· ∉ survivors σ.policy σ.items c)).foldl (fun d x => d.forget x.entry)
        σ.disk := by
  rw [← evict_survivors]
  exact evictLoop_disk _ _ _ σ

theorem evict_opened (σ : Store) (c : Cache.AddCall) :
    (σ.evict c.maxCacheSize c.elementSize).disk.names (c.diskPath σ.cacheDir) =
      opened σ.policy σ.items c σ.cacheDir σ.disk := by
  rw [evict_disk, opened]

theorem evict_frame (σ : Store) (c : Cache.AddCall) :
    (σ.evict c.maxCacheSize c.elementSize).disk.files = σ.disk.files ∧
      (σ.evict c.maxCacheSize c.elementSize).disk.nextInode = σ.disk.nextInode := by
  rw [evict_disk]
  exact foldl_forget_frame _ _

theorem add_not_accepted {c : Cache.AddCall} (rejected : accepted σ.policy σ.items c = false) :
    σ.add c = (σ, 0) ∨ σ.add c = (σ.evict c.maxCacheSize c.elementSize, 0) := by
  simp only [accepted, ← evict_survivors] at rejected
  simp only [add]
  split_ifs with refused room calloc
  · exact .inl rfl
  · exact .inr rfl
  · exact .inr rfl
  · rw [total] at room
    simp [refused, room, calloc] at rejected

theorem add_rejected {c : Cache.AddCall} (rejected : accepted σ.policy σ.items c = false) :
    (σ.add c).2 = 0 ∧ (σ.add c).1.items ⊆ σ.items ∧ (σ.add c).1.disk.files = σ.disk.files ∧
      (σ.add c).1.disk.nextInode = σ.disk.nextInode := by
  have fewer : (σ.evict c.maxCacheSize c.elementSize).items ⊆ σ.items := by
    rw [evict_survivors]
    exact survivors_subset _ _ _
  obtain ⟨files, next⟩ := σ.evict_frame c
  rcases add_not_accepted rejected with same | evicted
  · rw [same]
    exact ⟨rfl, List.Subset.refl _, rfl, rfl⟩
  · rw [evicted]
    exact ⟨rfl, fewer, files, next⟩

theorem add_accepted {c : Cache.AddCall} (met : accepted σ.policy σ.items c = true) :
    σ.add c = (σ.evict c.maxCacheSize c.elementSize).place c ∧
      (σ.evict c.maxCacheSize c.elementSize).cacheDir = σ.cacheDir := by
  simp only [accepted, ← evict_survivors, Bool.and_eq_true, Bool.not_eq_true'] at met
  exact ⟨σ.add_eq met.1.1 met.1.2 met.2, (evictLoop_frame _ _ _ σ).2.2⟩

theorem survivors_content (mapped : σ.Mapped) (c : Cache.AddCall) :
    (∀ x ∈ survivors σ.policy σ.items c,
      x.entry.content (c.toDisk (c.diskPath σ.cacheDir)
        (σ.evict c.maxCacheSize c.elementSize).disk).1 = x.entry.content σ.disk) ↔
    (c.opens = true → ∀ x ∈ survivors σ.policy σ.items c, ∀ file,
      x.entry.data = .mapped file → opened σ.policy σ.items c σ.cacheDir σ.disk = some file →
      (c.data.take c.written.toNat).take x.entry.length.toNat =
        (σ.disk.files file).take x.entry.length.toNat) := by
  obtain ⟨files, next⟩ := σ.evict_frame c
  have each : ∀ x ∈ survivors σ.policy σ.items c,
      (x.entry.content (c.toDisk (c.diskPath σ.cacheDir)
        (σ.evict c.maxCacheSize c.elementSize).disk).1 = x.entry.content σ.disk ↔
      (c.opens = true → ∀ file, x.entry.data = .mapped file →
        opened σ.policy σ.items c σ.cacheDir σ.disk = some file →
        (c.data.take c.written.toNat).take x.entry.length.toNat =
          (σ.disk.files file).take x.entry.length.toNat)) := by
    intro x member
    rw [← content_of_files files, Cache.AddCall.toDisk_content, evict_opened, files]
    rw [next]
    exact mapped x (survivors_subset _ _ _ member)
  constructor
  · intro all gate x member
    exact (each x member).mp (all x member) gate
  · intro all x member
    exact (each x member).mpr fun gate => all gate x member

theorem Mapped.add (mapped : σ.Mapped) (c : Cache.AddCall) : (σ.add c).1.Mapped := by
  cases met : accepted σ.policy σ.items c with
  | false =>
      obtain ⟨-, fewer, -, next⟩ := add_rejected met
      exact mapped.shrink fewer next.ge
  | true =>
      obtain ⟨added, dir⟩ := add_accepted met
      obtain ⟨-, next⟩ := σ.evict_frame c
      have grows := c.toDisk_nextInode (c.diskPath σ.cacheDir)
        (σ.evict c.maxCacheSize c.elementSize).disk
      rw [next] at grows
      have kept : ∀ x ∈ survivors σ.policy σ.items c, ∀ file, x.entry.data = .mapped file →
          file < (c.toDisk (c.diskPath σ.cacheDir)
            (σ.evict c.maxCacheSize c.elementSize).disk).1.nextInode :=
        fun x member file data =>
          (mapped x (survivors_subset _ _ _ member) file data).trans_le grows
      rw [added, place, dir]
      cases made : c.entry (c.diskPath σ.cacheDir) (c.toDisk (c.diskPath σ.cacheDir)
        (σ.evict c.maxCacheSize c.elementSize).disk).2 with
      | none =>
          intro x member
          exact kept x (σ.evict_survivors c ▸ member)
      | some e =>
          intro x member
          rcases List.mem_append.mp member with inside | last
          · exact kept x (σ.evict_survivors c ▸ inside)
          · rw [List.mem_singleton.mp last]
            exact fun file => Cache.AddCall.entry_mapped made

theorem current_insert {τ : Store} {items : List Item} {c : Cache.AddCall} {e : Entry}
    (current : σ.Current latest) (subset : items ⊆ σ.items) (all : τ.items = items ++ [⟨σ.brk, e⟩])
    (url : e.url = c.url) (content : e.content τ.disk = c.content) :
    τ.Current (Function.update latest c.url (some c.content)) ↔
      (∀ x ∈ items, x.entry.url ≠ c.url) ∧
        ∀ x ∈ items, x.entry.content τ.disk = x.entry.content σ.disk := by
  have last : ⟨σ.brk, e⟩ ∈ τ.items := by simp [all]
  have old : ∀ x ∈ items, x ∈ τ.items := fun x member => by simp [all, member]
  constructor
  · intro result
    have different : ∀ x ∈ items, x.entry.url ≠ c.url := by
      intro x member same
      have one := result.unique x (old x member) _ last (same.trans url.symm)
      exact absurd (σ.allocated x (subset member)) (by simp [one])
    refine ⟨different, fun x member => ?_⟩
    have after := result.content x (old x member)
    rw [Function.update_of_ne (different x member), current.content x (subset member)] at after
    exact (Option.some.inj after).symm
  · intro given
    obtain ⟨different, kept⟩ := given
    constructor
    · intro x member
      rw [all, List.mem_append, List.mem_singleton] at member
      rcases member with inside | rfl
      · rw [Function.update_of_ne (different x inside), kept x inside,
          current.content x (subset inside)]
      · rw [url, Function.update_self, content]
    · intro x left y right same
      rw [all, List.mem_append, List.mem_singleton] at left right
      rcases left with left | rfl <;> rcases right with right | rfl
      · exact current.unique x (subset left) y (subset right) same
      · exact absurd (same.trans url) (different x left)
      · exact absurd (same.symm.trans url) (different y right)
      · rfl

theorem current_add (current : σ.Current latest) (mapped : σ.Mapped) {c : Cache.AddCall}
    (valid : c.WellFormed) :
    (σ.add c).1.Current (Watched.record latest (.add c) (.added (σ.add c).2)) ↔
      Supersedes σ.policy σ.items c σ.cacheDir σ.disk := by
  cases met : accepted σ.policy σ.items c with
  | false =>
      obtain ⟨result, fewer, files, -⟩ := add_rejected met
      have same : Watched.record latest (.add c) (.added (σ.add c).2) = latest := by
        rw [result]
        rfl
      simp only [Supersedes, met, Bool.false_eq_true, false_implies, iff_true]
      rw [same]
      exact current.shrink fewer files
  | true =>
      obtain ⟨added, dir⟩ := add_accepted met
      have subset := survivors_subset σ.policy σ.items c
      have kept := survivors_content mapped c
      have items := σ.evict_survivors c
      simp only [Supersedes, met, forall_const]
      rw [← kept, added, place, dir]
      cases made : c.entry (c.diskPath σ.cacheDir) (c.toDisk (c.diskPath σ.cacheDir)
        (σ.evict c.maxCacheSize c.elementSize).disk).2 with
      | none =>
          have absent : c.stores = false := Cache.AddCall.entry_none.mp made
          simp only [absent, Bool.false_eq_true, false_implies, true_and]
          constructor
          · intro result x member
            have after := result.content x (items ▸ member)
            rw [show Watched.record latest (.add c) (.added 0) = latest from rfl,
              current.content x (subset member)] at after
            exact (Option.some.inj after).symm
          · intro same
            constructor
            · intro x member
              have inside : x ∈ survivors σ.policy σ.items c := items ▸ member
              exact (current.content x (subset inside)).trans (congrArg some (same x inside).symm)
            · intro x left y right
              exact current.unique x (subset (items ▸ left)) y (subset (items ▸ right))
      | some e =>
          have present : c.stores = true := by
            have := Cache.AddCall.entry_none.not.mp (made ▸ Option.some_ne_none e)
            simpa using this
          obtain ⟨url, -⟩ := Cache.AddCall.entry_shape made
          have content := Cache.AddCall.entry_content valid made
          obtain ⟨brk, -⟩ := evictLoop_frame c.maxCacheSize c.elementSize σ.items.length σ
          simp only [present, forall_const]
          exact current_insert current subset (by rw [← items, ← brk]; rfl) url content

theorem findCache_shape (σ : Store) (url : Bytes) (now : Int) :
    (σ.findCache url now).1 = σ ∨ (∃ x, (σ.findCache url now).1 = σ.remove x) ∨
      ∃ a, (σ.findCache url now).1 = σ.use a now := by
  cases found : σ.newest url with
  | none => exact Or.inl (by rw [findCache_miss found])
  | some x =>
      cases old : x.entry.expired now with
      | true => exact Or.inr (Or.inl ⟨x, by rw [findCache_expired found old]⟩)
      | false => exact Or.inr (Or.inr ⟨x.addr, by rw [findCache_hit found old]⟩)

theorem Current.findCache (current : σ.Current latest) (url : Bytes) (now : Int) :
    (σ.findCache url now).1.Current latest := by
  rcases σ.findCache_shape url now with same | ⟨x, same⟩ | ⟨a, same⟩ <;> rw [same]
  · exact current
  · exact current.remove x
  · exact current.use a now

theorem Current.purge (current : σ.Current latest) (url : Bytes) :
    (σ.purge url).Current (Function.update latest url none) := by
  have gone : ∀ y ∈ (σ.purge url).items, y.entry.url ≠ url := by
    intro y member same
    cases found : σ.newest url with
    | none =>
        rw [Store.purge, found] at member
        exact σ.newest_none.mp found y member same
    | some x =>
        rw [Store.purge, found] at member
        obtain ⟨inside, different⟩ := σ.mem_remove.mp member
        obtain ⟨stored, url_eq⟩ := σ.newest_mem found
        have one : y = x := current.unique y inside x stored (by rw [same, url_eq])
        exact different (congrArg Item.addr one)
  have kept : (σ.purge url).Current latest := by
    unfold Store.purge
    cases σ.newest url with
    | none => exact current
    | some x => exact current.remove x
  refine ⟨fun y member => ?_, kept.unique⟩
  rw [Function.update_of_ne (gone y member), kept.content y member]

theorem current_exec (current : σ.Current latest) (mapped : σ.Mapped) {op : Op}
    (valid : op.WellFormed) :
    (σ.exec op).1.Current (Watched.record latest op (σ.exec op).2) ↔
      match op with
      | .add c => Supersedes σ.policy σ.items c σ.cacheDir σ.disk
      | _ => True := by
  cases op with
  | add c => exact current_add current mapped valid
  | find url now => exact iff_of_true (current.findCache url now) trivial
  | remove =>
      refine iff_of_true ?_ trivial
      change (σ.victim.elim σ σ.remove).Current latest
      cases σ.victim with
      | none => exact current
      | some x => exact current.remove x
  | purge url => exact iff_of_true (current.purge url) trivial
  | clear => exact iff_of_true ⟨by simp [exec, clear], by simp [exec, clear]⟩ trivial
  | setPolicy policy => exact iff_of_true ⟨current.content, current.unique⟩ trivial

theorem Mapped.exec (mapped : σ.Mapped) (op : Op) : (σ.exec op).1.Mapped := by
  have remove (choice : Option Item) : (choice.elim σ σ.remove).Mapped := by
    cases choice with
    | none => exact mapped
    | some x => exact mapped.remove x
  cases op with
  | add c => exact mapped.add c
  | find url now =>
      change (σ.findCache url now).1.Mapped
      rcases σ.findCache_shape url now with same | ⟨x, same⟩ | ⟨a, same⟩ <;> rw [same]
      · exact mapped
      · exact mapped.remove x
      · exact mapped.use a now
  | remove => exact remove σ.victim
  | purge url => exact remove (σ.newest url)
  | clear =>
      intro x member
      simp [Store.exec, clear] at member
  | setPolicy policy => exact mapped

theorem Mapped.run (mapped : σ.Mapped) (ops : List Op) :
    (ops.foldl (fun σ op => (σ.exec op).1) σ).Mapped := by
  induction ops generalizing σ with
  | nil => exact mapped
  | cons op ops ih => exact ih (mapped.exec op)

end Store

theorem Refines.latestOnly {s : Cache} {σ : Store} {latest : Bytes → Option (Bytes × Int)}
    (refines : Refines s σ) : Watched.LatestOnly ⟨s, latest⟩ ↔ σ.Current latest := by
  have items : s.items = σ.items := refines.choose_spec.items
  have answers (url : Bytes) (now : Int) {x : Item} (found : σ.newest url = some x)
      (fresh : x.entry.expired now = false) :
      ∃ t, s.findCache url now = some (t, some x.addr) ∧
        t.entry x.addr = some (x.entry.touch now) ∧ t.disk = σ.disk := by
    obtain ⟨t, looked, chain, rep⟩ := refines.findCache url now
    rw [Store.findCache_hit found fresh] at looked rep
    refine ⟨t, looked, ?_, rep.disk.trans (σ.use_frame _ _)⟩
    apply (rep.entries _ _).mpr
    exact σ.mem_use.mpr ⟨x.entry, (σ.newest_mem found).1, by simp⟩
  unfold Watched.LatestOnly
  rw [items]
  constructor
  · intro given
    obtain ⟨answer, unique⟩ := given
    refine ⟨fun x member => ?_, unique⟩
    have found : σ.newest x.entry.url = some x :=
      σ.newest_eq member rfl fun y inside same => by rw [unique y inside x member same]
    obtain ⟨t, looked, live, disk⟩ := answers x.entry.url 0 found (by
      simp only [Entry.expired, Bool.and_eq_false_iff, decide_eq_false_iff_not]
      omega)
    obtain ⟨t', a, looked', right⟩ := answer x.entry.url 0
    rw [looked] at looked'
    cases looked'
    obtain ⟨e, live', latest_eq⟩ := right _ rfl
    rw [live] at live'
    cases live'
    rw [disk] at latest_eq
    exact latest_eq
  · intro current
    refine ⟨fun url now => ?_, current.unique⟩
    cases found : σ.newest url with
    | none =>
        obtain ⟨t, looked, -⟩ := refines.findCache url now
        rw [Store.findCache_miss found] at looked
        exact ⟨t, none, looked, by simp⟩
    | some x =>
        obtain ⟨member, url_eq⟩ := σ.newest_mem found
        cases old : x.entry.expired now with
        | true =>
            obtain ⟨t, looked, -⟩ := refines.findCache url now
            rw [Store.findCache_expired found old] at looked
            exact ⟨t, none, looked, by simp⟩
        | false =>
            obtain ⟨t, looked, live, disk⟩ := answers url now found old
            refine ⟨t, some x.addr, looked, ?_⟩
            intro a same
            obtain ⟨rfl⟩ := same
            refine ⟨_, live, ?_⟩
            rw [disk, ← url_eq]
            exact current.content x member

theorem Watched.step_cases {w v : Watched} {σ : Store} {op : Op} (refines : Refines w.cache σ)
    (taken : Watched.step w op = some v) :
    op.WellFormed ∧ ∃ t, w.cache.exec op = some (t, (σ.exec op).2) ∧ Refines t (σ.exec op).1 ∧
      v = ⟨t, Watched.record w.latest op (σ.exec op).2⟩ := by
  obtain ⟨t, ran, result⟩ := refines.exec op
  rw [Watched.step, ran] at taken
  split at taken
  · rename_i valid
    exact ⟨valid, t, ran, result, (Option.some.inj taken).symm⟩
  · cases taken

/-- In a run the cache is a map to the latest responses, in every state, exactly if every call of
`AddCache` finds no surviving entry that it supersedes or overwrites. -/
theorem latestOnly_iff_supersedes {policy : CacheEvictionPolicy} {cacheDir : Bytes} {disk : Disk}
    {ops : List Op} {w : Watched}
    (complete : run Watched.step (Watched.init policy cacheDir disk) ops = some w) :
    EveryState Watched.step (Watched.init policy cacheDir disk) ops Watched.LatestOnly ↔
      EveryStep Watched.step (Watched.init policy cacheDir disk) ops
        fun w op => w.cache.Supersedes op := by
  let invariant (w : Watched) : Prop := ∃ σ, Refines w.cache σ ∧ σ.Mapped
  have empty : (Store.init policy cacheDir disk).Current fun _ => none :=
    ⟨by simp [Store.init], by simp [Store.init]⟩
  have init := Refines.init policy cacheDir disk
  apply everyState_iff_everyStep Watched.step invariant
  · intro v op v' given taken
    obtain ⟨σ, refines, mapped⟩ := given
    obtain ⟨valid, t, ran, refines', rfl⟩ := Watched.step_cases refines taken
    exact ⟨_, refines', mapped.exec op⟩
  · intro v op v' given holds taken
    obtain ⟨σ, refines, mapped⟩ := given
    obtain ⟨valid, t, ran, refines', rfl⟩ := Watched.step_cases refines taken
    have current := refines.latestOnly.mp holds
    rw [refines'.latestOnly, Store.current_exec current mapped valid]
    obtain ⟨chain, rep⟩ := refines
    cases op <;> simp [Cache.Supersedes, rep.items, rep.policy, rep.cacheDir, rep.disk]
  · exact ⟨_, init, by simp [Store.Mapped, Store.init]⟩
  · exact init.latestOnly.mpr empty
  · exact complete

theorem latestOnly_iff_supersedes_refetch :
    ∃ w, run Watched.step (Watched.init .lru [] .empty)
        [.add (sampleCall "u" "1"), .purge (ascii "u"), .add (sampleCall "u" "2")] = some w ∧
      (EveryState Watched.step (Watched.init .lru [] .empty)
          [.add (sampleCall "u" "1"), .purge (ascii "u"), .add (sampleCall "u" "2")]
          Watched.LatestOnly ↔
        EveryStep Watched.step (Watched.init .lru [] .empty)
          [.add (sampleCall "u" "1"), .purge (ascii "u"), .add (sampleCall "u" "2")]
          fun w op => w.cache.Supersedes op) := by
  obtain ⟨w, reached⟩ := Option.isSome_iff_exists.mp (show (run Watched.step
    (Watched.init .lru [] .empty) [.add (sampleCall "u" "1"), .purge (ascii "u"),
      .add (sampleCall "u" "2")]).isSome = true by decide)
  exact ⟨w, reached, latestOnly_iff_supersedes reached⟩

theorem older_copy_resurfaces :
    ∃ w, run Watched.step (Watched.init .lru [] .empty)
        [.add (sampleCall "u" "1"), .add (sampleCall "u" "2"), .purge (ascii "u")] = some w ∧
      ¬ w.LatestOnly := by
  obtain ⟨w, reached⟩ := Option.isSome_iff_exists.mp (show (run Watched.step
    (Watched.init .lru [] .empty) [.add (sampleCall "u" "1"), .add (sampleCall "u" "2"),
      .purge (ascii "u")]).isSome = true by decide)
  refine ⟨w, reached, fun always => ?_⟩
  obtain ⟨t, answer, looked, right⟩ := always.1 (ascii "u") 5
  have purged : w.latest (ascii "u") = none := by
    have value : (run Watched.step (Watched.init .lru [] .empty) [.add (sampleCall "u" "1"),
        .add (sampleCall "u" "2"), .purge (ascii "u")]).map (·.latest (ascii "u")) =
        some none := by decide
    simpa [reached] using value
  have found : answer = some 0 := by
    have value : ((run Watched.step (Watched.init .lru [] .empty) [.add (sampleCall "u" "1"),
        .add (sampleCall "u" "2"), .purge (ascii "u")]).bind
          (·.cache.findCache (ascii "u") 5)).map (·.2) = some (some 0) := by decide
    simpa [reached, looked] using value
  obtain ⟨e, -, latest⟩ := right 0 found
  simp [purged] at latest

end ProxyServer
