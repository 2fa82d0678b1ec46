import ProxyServer.Cache.Latest

namespace ProxyServer
open Lib

def Entry.file (e : Entry) : Option Bytes := if e.isOnDisk then e.diskPath else none

def Cache.creates (s : Cache) : Op → Option Bytes
  | .add c =>
      if c.refused then none
      else (Cache.evictLoop c.maxCacheSize c.elementSize (s.brk + 1) s).bind fun t =>
        if (t.cacheSize + c.elementSize) % 2 ^ 64 ≤ c.maxCacheSize ∧ c.callocOk ∧ c.opens then
          some (c.diskPath t.cacheDir)
        else none
  | _ => none

structure Ledger where
  cache : Cache
  created : List Bytes
  added : Addr → Option (Bytes × Int)

namespace Ledger

def init (policy : CacheEvictionPolicy) (cacheDir : Bytes) (disk : Disk) : Ledger :=
  ⟨Cache.cacheInit policy cacheDir disk, [], fun _ => none⟩

def record (added : Addr → Option (Bytes × Int)) (node : Addr) :
    Op → Reply → Addr → Option (Bytes × Int)
  | .add c, .added 1 => Function.update added node (some c.content)
  | _, _ => added

def step (w : Ledger) (op : Op) : Option Ledger :=
  if op.WellFormed then
    (w.cache.exec op).map fun r =>
      ⟨r.1, (w.cache.creates op).toList ++ w.created, record w.added w.cache.brk op r.2⟩
  else none

structure OwnsFiles (w : Ledger) : Prop where
  files : ∀ path, (path ∈ w.created ∧ w.cache.disk.names path ≠ none) ↔
    ∃ x ∈ w.cache.items, x.entry.file = some path
  paths : ∀ x ∈ w.cache.items, ∀ y ∈ w.cache.items, ∀ path,
    x.entry.file = some path → y.entry.file = some path → x = y
  contents : ∀ x ∈ w.cache.items, x.entry.isOnDisk = true →
    w.added x.addr = some (x.entry.content w.cache.disk)
  found : ∀ url now t a e, w.cache.findCache url now = some (t, some a) → t.entry a = some e →
    e.isOnDisk = true → w.added a = some (e.content t.disk)

end Ledger

def Cache.AddCall.mapsFile (c : AddCall) : Bool := c.written = c.size ∧ c.mmapOk

/-- A call that opens its file maps it exactly if no entry that survives its evictions has the
path, and the bytes that it writes are not other bytes of a survivor. -/
def KeepsFiles (policy : CacheEvictionPolicy) (items : List Item) (c : Cache.AddCall)
    (cacheDir : Bytes) (disk : Disk) : Prop :=
  accepted policy items c = true → c.opens = true →
    (c.mapsFile = true ↔
      ∀ x ∈ survivors policy items c, x.entry.file ≠ some (c.diskPath cacheDir)) ∧
    ∀ x ∈ survivors policy items c, x.entry.isOnDisk = true → ∀ file,
      x.entry.data = .mapped file → opened policy items c cacheDir disk = some file →
      (c.data.take c.written.toNat).take x.entry.length.toNat =
        (disk.files file).take x.entry.length.toNat

def Cache.KeepsFiles (s : Cache) : Op → Prop
  | .add c => ProxyServer.KeepsFiles s.policy s.items c s.cacheDir s.disk
  | _ => True

theorem Ledger.record_of_ne (added : Addr → Option (Bytes × Int)) {node a : Addr} (op : Op)
    (reply : Reply) (other : a ≠ node) : Ledger.record added node op reply a = added a := by
  unfold Ledger.record
  split
  · exact Function.update_of_ne other _ _
  · rfl

theorem Disk.names_forget (d : Disk) (e : Entry) (path : Bytes) :
    (d.forget e).names path ≠ none ↔ d.names path ≠ none ∧ e.file ≠ some path := by
  unfold Disk.forget Entry.file
  cases e.isOnDisk with
  | false => simp
  | true =>
      cases e.diskPath with
      | none => simp
      | some own =>
          by_cases same : path = own
          · simp [unlink, same]
          · simp [unlink, Function.update_of_ne same, Ne.symm same]

theorem names_foldl_forget (xs : List Item) (d : Disk) (path : Bytes) :
    (xs.foldl (fun d x => d.forget x.entry) d).names path ≠ none ↔
      d.names path ≠ none ∧ ∀ x ∈ xs, x.entry.file ≠ some path := by
  induction xs generalizing d with
  | nil => simp
  | cons x xs ih => rw [List.foldl_cons, ih, d.names_forget, List.forall_mem_cons, and_assoc]

namespace Cache.AddCall

variable {c : AddCall} {path : Bytes} {d : Disk} {e : Entry}

theorem toDisk_names (opens : c.opens = true) (other : Bytes) :
    (c.toDisk path d).1.names other ≠ none ↔ other = path ∨ d.names other ≠ none := by
  have gate : c.size > 128 * 1024 ∧ c.openOk = true := by simpa [AddCall.opens] using opens
  rw [toDisk, if_pos gate]
  unfold Disk.openTrunc
  split
  · rename_i file found
    have here : other = path → d.names other ≠ none := fun same => by simp [same, found]
    simp only [Disk.write]
    tauto
  · by_cases same : other = path
    · simp [Disk.write, same]
    · simp [Disk.write, same]

theorem entry_file (made : c.entry path (c.toDisk path d).2 = some e) :
    e.file = if c.opens && c.mapsFile then some path else none := by
  have inMemory (absent : (c.toDisk path d).2 = none) : e.file = none := by
    simp only [entry, absent, Option.ite_none_right_eq_some, Option.some.injEq] at made
    simp [← made.2, Entry.file]
  cases gate : c.opens with
  | false => simpa using inMemory (by rw [toDisk_closed gate])
  | true =>
      obtain ⟨file, -, -, -, -, result⟩ := toDisk_opens path d gate
      cases kept : c.mapsFile with
      | false =>
          have failed : ¬(c.written = c.size ∧ c.mmapOk = true) := by simpa [mapsFile] using kept
          simpa using inMemory (by rw [result, if_neg failed])
      | true =>
          have mapped : c.written = c.size ∧ c.mmapOk = true := by simpa [mapsFile] using kept
          rw [result, if_pos mapped] at made
          simp only [entry, Option.some.injEq] at made
          simp [← made, Entry.file]

theorem stores_of_mapsFile (opens : c.opens = true) (maps : c.mapsFile = true) :
    c.stores = true := by
  simp_all [stores, mapsFile]

end Cache.AddCall

namespace Store

variable {σ τ : Store} {created : List Bytes} {added : Addr → Option (Bytes × Int)}

structure OwnsFiles (σ : Store) (created : List Bytes) (added : Addr → Option (Bytes × Int)) :
    Prop where
  files : ∀ path, (path ∈ created ∧ σ.disk.names path ≠ none) ↔
    ∃ x ∈ σ.items, x.entry.file = some path
  paths : ∀ x ∈ σ.items, ∀ y ∈ σ.items, ∀ path,
    x.entry.file = some path → y.entry.file = some path → x = y
  contents : ∀ x ∈ σ.items, x.entry.isOnDisk = true →
    added x.addr = some (x.entry.content σ.disk)

theorem OwnsFiles.drop (owns : σ.OwnsFiles created added) (gone : List Item)
    (items : ∀ x, x ∈ τ.items ↔ x ∈ σ.items ∧ x ∉ gone) (known : gone ⊆ σ.items)
    (disk : τ.disk = gone.foldl (fun d x => d.forget x.entry) σ.disk) :
    τ.OwnsFiles created added where
  files path := by
    rw [disk, names_foldl_forget, ← and_assoc, owns.files]
    constructor
    · rintro ⟨⟨x, member, file⟩, others⟩
      exact ⟨x, (items x).mpr ⟨member, fun inside => others x inside file⟩, file⟩
    · rintro ⟨x, member, file⟩
      obtain ⟨stored, kept⟩ := (items x).mp member
      refine ⟨⟨x, stored, file⟩, fun y inside same => kept ?_⟩
      rwa [owns.paths x stored y (known inside) path file same]
  paths x left y right := owns.paths x ((items x).mp left).1 y ((items y).mp right).1
  contents x member onDisk := by
    rw [disk, content_of_files (foldl_forget_frame gone σ.disk).1]
    exact owns.contents x ((items x).mp member).1 onDisk

theorem OwnsFiles.remove (owns : σ.OwnsFiles created added) {x : Item} (member : x ∈ σ.items) :
    (σ.remove x).OwnsFiles created added := by
  refine owns.drop [x] (fun y => ?_) (by simpa using member) rfl
  rw [σ.remove_items member, σ.items_nodup.mem_erase_iff, and_comm, List.mem_singleton]

theorem OwnsFiles.evict (owns : σ.OwnsFiles created added) (c : Cache.AddCall) :
    (σ.evict c.maxCacheSize c.elementSize).OwnsFiles created added := by
  refine owns.drop _ (fun x => ?_) (List.filter_subset_self _) (σ.evict_disk c)
  have subset := survivors_subset σ.policy σ.items c
  simp only [evict_survivors, List.mem_filter, decide_eq_true_eq]
  exact ⟨fun inside => ⟨subset inside, fun other => other.2 inside⟩,
    fun given => not_not.mp fun outside => given.2 ⟨given.1, outside⟩⟩

theorem OwnsFiles.clear (owns : σ.OwnsFiles created added) : σ.clear.OwnsFiles created added :=
  owns.drop σ.items (by simp [Store.clear]) (List.Subset.refl _) rfl

theorem OwnsFiles.use (owns : σ.OwnsFiles created added) (a : Addr) (now : Int) :
    (σ.use a now).OwnsFiles created added := by
  have touched (x : Item) : x ∈ (σ.use a now).items → ∃ y ∈ σ.items, y.addr = x.addr ∧
      x.entry = if x.addr = a then y.entry.touch now else y.entry := by
    intro member
    obtain ⟨e, inside, shape⟩ := (σ.mem_use (b := x.addr) (e := x.entry)).mp member
    exact ⟨_, inside, rfl, shape⟩
  have file (b : Addr) (e : Entry) : (if b = a then e.touch now else e).file = e.file := by
    split <;> rfl
  constructor
  · intro path
    rw [use_frame, owns.files]
    constructor
    · rintro ⟨x, member, named⟩
      exact ⟨⟨x.addr, if x.addr = a then x.entry.touch now else x.entry⟩,
        σ.mem_use.mpr ⟨x.entry, member, rfl⟩, (file _ _).trans named⟩
    · rintro ⟨x, member, named⟩
      obtain ⟨y, inside, -, shape⟩ := touched x member
      exact ⟨y, inside, by rwa [shape, file] at named⟩
  · intro x left y right path named same
    obtain ⟨x', inside, addr, shape⟩ := touched x left
    obtain ⟨y', inside', addr', shape'⟩ := touched y right
    rw [shape, file] at named
    rw [shape', file] at same
    have one := owns.paths x' inside y' inside' path named same
    exact List.inj_on_of_nodup_map (σ.use a now).distinct left right (by rw [← addr, ← addr', one])
  · intro x member onDisk
    obtain ⟨y, inside, addr, shape⟩ := touched x member
    have same : x.entry.isOnDisk = y.entry.isOnDisk ∧
        x.entry.content σ.disk = y.entry.content σ.disk := by
      rw [shape]
      split <;> exact ⟨rfl, rfl⟩
    rw [use_frame, same.2, ← addr]
    exact owns.contents y inside (same.1 ▸ onDisk)

theorem OwnsFiles.findCache (owns : σ.OwnsFiles created added) (url : Bytes) (now : Int) :
    (σ.findCache url now).1.OwnsFiles created added := by
  cases found : σ.newest url with
  | none => rwa [findCache_miss found]
  | some x =>
      cases old : x.entry.expired now with
      | true =>
          rw [findCache_expired found old]
          exact owns.remove (σ.newest_mem found).1
      | false =>
          rw [findCache_hit found old]
          exact owns.use x.addr now

def creates (σ : Store) : Op → Option Bytes
  | .add c =>
      if accepted σ.policy σ.items c && c.opens then some (c.diskPath σ.cacheDir) else none
  | _ => none

theorem place_shape (σ : Store) (c : Cache.AddCall) :
    let placed := c.toDisk (c.diskPath σ.cacheDir) σ.disk
    let made := c.entry (c.diskPath σ.cacheDir) placed.2
    (σ.place c).1.items = σ.items ++ made.toList.map (Item.mk σ.brk) ∧
      (σ.place c).1.disk = placed.1 ∧ (σ.place c).2 = if made.isSome then 1 else 0 := by
  intro placed made
  rw [place]
  cases result : c.entry (c.diskPath σ.cacheDir) (c.toDisk (c.diskPath σ.cacheDir) σ.disk).2 with
  | none => simp [made, placed, result, withDisk]
  | some e => simp [made, placed, result, withDisk, insert]

theorem file_place (σ : Store) (c : Cache.AddCall) (path : Bytes) :
    (∃ x ∈ (σ.place c).1.items, x.entry.file = some path) ↔
      (∃ x ∈ σ.items, x.entry.file = some path) ∨
        (c.opens = true ∧ c.mapsFile = true) ∧ path = c.diskPath σ.cacheDir := by
  obtain ⟨items, -⟩ := σ.place_shape c
  rw [items]
  simp only [List.mem_append, or_and_right, exists_or]
  apply or_congr_right
  cases made : c.entry (c.diskPath σ.cacheDir) (c.toDisk (c.diskPath σ.cacheDir) σ.disk).2 with
  | none =>
      have absent := Cache.AddCall.entry_none.mp made
      have unmapped (opens : c.opens = true) (maps : c.mapsFile = true) : False := by
        simp [Cache.AddCall.stores_of_mapsFile opens maps] at absent
      simpa using fun opens maps => (unmapped opens maps).elim
  | some e =>
      simp only [Option.toList_some, List.map_cons, List.map_nil, List.mem_singleton, exists_eq_left]
      rw [Cache.AddCall.entry_file made, Option.ite_none_right_eq_some, Bool.and_eq_true,
        Option.some.injEq, eq_comm (b := path)]

theorem files_place (owns : σ.OwnsFiles created added) (c : Cache.AddCall) :
    (∀ path, (path ∈ (if c.opens then some (c.diskPath σ.cacheDir) else none).toList ++ created ∧
        (σ.place c).1.disk.names path ≠ none) ↔
          ∃ x ∈ (σ.place c).1.items, x.entry.file = some path) ↔
      (c.opens = true → c.mapsFile = true ∨
        ∃ x ∈ σ.items, x.entry.file = some (c.diskPath σ.cacheDir)) := by
  obtain ⟨-, disk, -⟩ := σ.place_shape c
  have before (path : Bytes) : (path ∈ (if c.opens then some (c.diskPath σ.cacheDir)
      else none).toList ++ created ∧ (σ.place c).1.disk.names path ≠ none) ↔
        c.opens = true ∧ path = c.diskPath σ.cacheDir ∨
          ∃ x ∈ σ.items, x.entry.file = some path := by
    rw [disk, ← owns.files]
    cases opens : c.opens with
    | false => simp [Cache.AddCall.toDisk_closed opens]
    | true =>
        rw [Cache.AddCall.toDisk_names opens]
        simp only [↓reduceIte, Option.toList_some, List.cons_append, List.nil_append,
          List.mem_cons, true_and]
        tauto
  simp only [before, file_place]
  constructor
  · intro all opens
    rcases (all (c.diskPath σ.cacheDir)).mp (.inl ⟨opens, rfl⟩) with held | ⟨⟨-, maps⟩, -⟩
    · exact .inr held
    · exact .inl maps
  · intro given path
    constructor
    · rintro (⟨opens, rfl⟩ | held)
      · exact (given opens).symm.imp_right fun maps => ⟨⟨opens, maps⟩, rfl⟩
      · exact .inl held
    · rintro (held | ⟨⟨opens, -⟩, same⟩)
      · exact .inr held
      · exact .inl ⟨opens, same⟩

theorem paths_place (owns : σ.OwnsFiles created added) (c : Cache.AddCall) :
    (∀ x ∈ (σ.place c).1.items, ∀ y ∈ (σ.place c).1.items, ∀ path,
        x.entry.file = some path → y.entry.file = some path → x = y) ↔
      (c.opens = true → c.mapsFile = true →
        ∀ x ∈ σ.items, x.entry.file ≠ some (c.diskPath σ.cacheDir)) := by
  obtain ⟨items, -⟩ := σ.place_shape c
  cases made : c.entry (c.diskPath σ.cacheDir) (c.toDisk (c.diskPath σ.cacheDir) σ.disk).2 with
  | none =>
      have absent := Cache.AddCall.entry_none.mp made
      rw [items, made]
      refine iff_of_true (by simpa using owns.paths) fun opens maps => ?_
      simp [Cache.AddCall.stores_of_mapsFile opens maps] at absent
  | some e =>
      have file := Cache.AddCall.entry_file made
      rw [items, made]
      simp only [Option.toList_some, List.map_cons, List.map_nil, List.mem_append,
        List.mem_singleton]
      constructor
      · intro all opens maps x member named
        have one := all x (.inl member) _ (.inr rfl) _ named (by simp [file, opens, maps])
        exact absurd (σ.allocated x member) (by simp [one])
      · intro apart x left y right path named same
        have apart' (z : Item) (inside : z ∈ σ.items) (here : e.file = some path)
            (there : z.entry.file = some path) : False := by
          rw [file, Option.ite_none_right_eq_some, Bool.and_eq_true, Option.some.injEq] at here
          exact apart here.1.1 here.1.2 z inside (here.2 ▸ there)
        rcases left with left | rfl <;> rcases right with right | rfl
        · exact owns.paths x left y right path named same
        · exact (apart' x left same named).elim
        · exact (apart' y right named same).elim
        · rfl

theorem contents_place (owns : σ.OwnsFiles created added) {c : Cache.AddCall}
    (valid : c.WellFormed) :
    (∀ x ∈ (σ.place c).1.items, x.entry.isOnDisk = true →
        Ledger.record added σ.brk (.add c) (.added (σ.place c).2) x.addr =
          some (x.entry.content (σ.place c).1.disk)) ↔
      ∀ x ∈ σ.items, x.entry.isOnDisk = true →
        x.entry.content (c.toDisk (c.diskPath σ.cacheDir) σ.disk).1 = x.entry.content σ.disk := by
  obtain ⟨items, disk, result⟩ := σ.place_shape c
  have old (x : Item) (member : x ∈ σ.items) :
      Ledger.record added σ.brk (.add c) (.added (σ.place c).2) x.addr = added x.addr :=
    Ledger.record_of_ne _ _ _ (Nat.ne_of_lt (σ.allocated x member))
  rw [items, disk]
  constructor
  · intro all x member onDisk
    have after := all x (List.mem_append_left _ member) onDisk
    rw [old x member, owns.contents x member onDisk] at after
    exact (Option.some.inj after).symm
  · intro kept x member onDisk
    rcases List.mem_append.mp member with inside | new
    · rw [old x inside, owns.contents x inside onDisk, kept x inside onDisk]
    · obtain ⟨e, made, rfl⟩ := List.mem_map.mp new
      rw [Option.mem_toList] at made
      rw [result, made, Cache.AddCall.entry_content valid made]
      exact Function.update_self ..

theorem ownsFiles_place (owns : σ.OwnsFiles created added) {c : Cache.AddCall}
    (valid : c.WellFormed) :
    (σ.place c).1.OwnsFiles
        ((if c.opens then some (c.diskPath σ.cacheDir) else none).toList ++ created)
        (Ledger.record added σ.brk (.add c) (.added (σ.place c).2)) ↔
      (c.opens = true →
        (c.mapsFile = true ↔ ∀ x ∈ σ.items, x.entry.file ≠ some (c.diskPath σ.cacheDir)) ∧
        ∀ x ∈ σ.items, x.entry.isOnDisk = true →
          x.entry.content (c.toDisk (c.diskPath σ.cacheDir) σ.disk).1 =
            x.entry.content σ.disk) := by
  have parts : (σ.place c).1.OwnsFiles
      ((if c.opens then some (c.diskPath σ.cacheDir) else none).toList ++ created)
      (Ledger.record added σ.brk (.add c) (.added (σ.place c).2)) ↔ _ ∧ _ ∧ _ :=
    ⟨fun owned => ⟨owned.files, owned.paths, owned.contents⟩,
      fun owned => ⟨owned.1, owned.2.1, owned.2.2⟩⟩
  rw [parts, files_place owns, paths_place owns, contents_place owns valid]
  cases opens : c.opens with
  | false => simp [Cache.AddCall.toDisk_closed opens]
  | true =>
      cases maps : c.mapsFile <;> simp

theorem keepsFiles_iff (mapped : σ.Mapped) (c : Cache.AddCall) :
    KeepsFiles σ.policy σ.items c σ.cacheDir σ.disk ↔
      (accepted σ.policy σ.items c = true → c.opens = true →
        (c.mapsFile = true ↔ ∀ x ∈ (σ.evict c.maxCacheSize c.elementSize).items,
          x.entry.file ≠ some (c.diskPath σ.cacheDir)) ∧
        ∀ x ∈ (σ.evict c.maxCacheSize c.elementSize).items, x.entry.isOnDisk = true →
          x.entry.content (c.toDisk (c.diskPath σ.cacheDir)
              (σ.evict c.maxCacheSize c.elementSize).disk).1 =
            x.entry.content (σ.evict c.maxCacheSize c.elementSize).disk) := by
  obtain ⟨files, next⟩ := σ.evict_frame c
  unfold KeepsFiles
  rw [← evict_survivors]
  refine forall_congr' fun _ => forall_congr' fun opens => and_congr_right fun _ => ?_
  refine forall₂_congr fun x member => forall_congr' fun _ => ?_
  have stored : x ∈ σ.items := by
    rw [evict_survivors] at member
    exact survivors_subset _ _ _ member
  rw [Cache.AddCall.toDisk_content (by rw [next]; exact mapped x stored), evict_opened, files]
  exact ⟨fun same _ => same, fun same => same opens⟩

theorem ownsFiles_add (owns : σ.OwnsFiles created added) (mapped : σ.Mapped) {c : Cache.AddCall}
    (valid : c.WellFormed) :
    (σ.add c).1.OwnsFiles ((σ.creates (.add c)).toList ++ created)
        (Ledger.record added σ.brk (.add c) (.added (σ.add c).2)) ↔
      KeepsFiles σ.policy σ.items c σ.cacheDir σ.disk := by
  rw [keepsFiles_iff mapped, creates]
  cases met : accepted σ.policy σ.items c with
  | false =>
      obtain ⟨result, -⟩ := add_rejected met
      have same : Ledger.record added σ.brk (.add c) (.added (σ.add c).2) = added := by
        rw [result]
        rfl
      simp only [same, Bool.false_and, Bool.false_eq_true, ↓reduceIte, Option.toList_none,
        List.nil_append, false_implies, iff_true]
      rcases add_not_accepted met with same | evicted
      · rwa [same]
      · rw [evicted]
        exact owns.evict c
  | true =>
      obtain ⟨added_eq, dir⟩ := add_accepted met
      have brk : (σ.evict c.maxCacheSize c.elementSize).brk = σ.brk := (evictLoop_frame ..).1
      have placed := ownsFiles_place (owns.evict c) valid
      rw [dir, brk] at placed
      rw [added_eq, Bool.true_and, placed]
      simp only [forall_const]

theorem ownsFiles_exec (owns : σ.OwnsFiles created added) (mapped : σ.Mapped) {op : Op}
    (valid : op.WellFormed) :
    (σ.exec op).1.OwnsFiles ((σ.creates op).toList ++ created)
        (Ledger.record added σ.brk op (σ.exec op).2) ↔
      match op with
      | .add c => KeepsFiles σ.policy σ.items c σ.cacheDir σ.disk
      | _ => True := by
  have remove (choice : Option Item) (known : ∀ x, choice = some x → x ∈ σ.items) :
      (choice.elim σ σ.remove).OwnsFiles created added := by
    cases choice with
    | none => exact owns
    | some x => exact owns.remove (known x rfl)
  cases op with
  | add c => exact ownsFiles_add owns mapped valid
  | find url now => exact iff_of_true (owns.findCache url now) trivial
  | remove => exact iff_of_true (remove σ.victim fun _ => σ.victim_mem) trivial
  | purge url => exact iff_of_true (remove (σ.newest url) fun _ found => (σ.newest_mem found).1) trivial
  | clear => exact iff_of_true owns.clear trivial
  | setPolicy policy => exact iff_of_true ⟨owns.files, owns.paths, owns.contents⟩ trivial

end Store

namespace Refines

variable {s : Cache} {σ : Store}

theorem creates (refines : Refines s σ) (op : Op) : s.creates op = σ.creates op := by
  cases op with
  | add c =>
      obtain ⟨t, evicted, result⟩ := refines.evictLoop c.maxCacheSize c.elementSize (s.brk + 1)
        (Nat.lt_succ_of_le (refines.choose_spec.length_le_brk)) le_rfl
      rw [← Store.evict] at result
      obtain ⟨chain, rep⟩ := result
      have dir : t.cacheDir = σ.cacheDir :=
        rep.cacheDir.trans (Store.evictLoop_frame _ _ _ σ).2.2
      have room : (t.cacheSize + c.elementSize) % 2 ^ 64 ≤ c.maxCacheSize ↔
          fits c.maxCacheSize c.elementSize
            (((survivors σ.policy σ.items c).map weight).sum) = true := by
        rw [rep.cacheSize, fits, Store.total, Store.evict_survivors]
        simp
      simp only [Cache.creates, Store.creates, accepted, evicted, dir, room, Option.bind_some]
      by_cases refused : c.refused = true
      · simp [refused]
      · simp [refused, and_assoc]
  | find url now => rfl
  | remove => rfl
  | purge url => rfl
  | clear => rfl
  | setPolicy policy => rfl

theorem ownsFiles {created : List Bytes} {added : Addr → Option (Bytes × Int)}
    (refines : Refines s σ) :
    Ledger.OwnsFiles ⟨s, created, added⟩ ↔ σ.OwnsFiles created added := by
  have items : s.items = σ.items := refines.choose_spec.items
  have disk : s.disk = σ.disk := refines.choose_spec.disk
  constructor
  · rintro ⟨files, paths, contents, -⟩
    rw [items] at paths contents
    rw [disk] at contents
    exact ⟨by simpa only [items, disk] using files, paths, contents⟩
  · intro owns
    refine ⟨by simpa only [items, disk] using owns.files, by rw [items]; exact owns.paths,
      by rw [items, disk]; exact owns.contents, ?_⟩
    intro url now t a e looked live onDisk
    obtain ⟨u, looked', chain, rep⟩ := refines.findCache url now
    simp only at looked
    rw [looked, Option.some.injEq, Prod.mk.injEq] at looked'
    obtain ⟨rfl, -⟩ := looked'
    rw [rep.disk]
    exact (owns.findCache url now).contents _ ((rep.entries a e).mp live) onDisk

end Refines

theorem Ledger.step_cases {w v : Ledger} {σ : Store} {op : Op} (refines : Refines w.cache σ)
    (taken : Ledger.step w op = some v) :
    op.WellFormed ∧ Refines v.cache (σ.exec op).1 ∧
      v.created = (σ.creates op).toList ++ w.created ∧
      v.added = Ledger.record w.added σ.brk op (σ.exec op).2 := by
  obtain ⟨t, ran, result⟩ := refines.exec op
  rw [Ledger.step, ran] at taken
  split at taken
  · rename_i valid
    cases taken
    refine ⟨valid, result, ?_, ?_⟩
    · simp only [refines.creates op]
    · simp only [refines.choose_spec.brk]
  · cases taken

/-- In a run the files of the cache are those of its entries, one each and with their responses,
in every state, exactly if every call of `AddCache` keeps them. -/
theorem ownsFiles_iff_keepsFiles {policy : CacheEvictionPolicy} {cacheDir : Bytes} {disk : Disk}
    {ops : List Op} {w : Ledger}
    (complete : run Ledger.step (Ledger.init policy cacheDir disk) ops = some w) :
    EveryState Ledger.step (Ledger.init policy cacheDir disk) ops Ledger.OwnsFiles ↔
      EveryStep Ledger.step (Ledger.init policy cacheDir disk) ops
        fun w op => w.cache.KeepsFiles op := by
  let invariant (w : Ledger) : Prop := ∃ σ, Refines w.cache σ ∧ σ.Mapped
  have init := Refines.init policy cacheDir disk
  have empty : (Store.init policy cacheDir disk).OwnsFiles [] fun _ => none :=
    ⟨by simp [Store.init], by simp [Store.init], by simp [Store.init]⟩
  apply everyState_iff_everyStep Ledger.step invariant
  · intro v op v' given taken
    obtain ⟨σ, refines, mapped⟩ := given
    exact ⟨_, (Ledger.step_cases refines taken).2.1, mapped.exec op⟩
  · intro v op v' given holds taken
    obtain ⟨σ, refines, mapped⟩ := given
    obtain ⟨valid, refines', created, added⟩ := Ledger.step_cases refines taken
    have owns := refines.ownsFiles.mp holds
    have after := Store.ownsFiles_exec owns mapped valid
    rw [← created, ← added] at after
    rw [refines'.ownsFiles.trans after]
    obtain ⟨chain, rep⟩ := refines
    cases op <;> simp [Cache.KeepsFiles, rep.items, rep.policy, rep.cacheDir, rep.disk]
  · exact ⟨_, init, by simp [Store.Mapped, Store.init]⟩
  · exact init.ownsFiles.mpr empty
  · exact complete

theorem Ledger.run_some {w : Ledger} {σ : Store} (refines : Refines w.cache σ) {ops : List Op}
    (valid : ∀ op ∈ ops, op.WellFormed) :
    ∃ v, run Ledger.step w ops = some v ∧
      Refines v.cache (ops.foldl (fun σ op => (σ.exec op).1) σ) := by
  induction ops generalizing w σ with
  | nil => exact ⟨w, rfl, refines⟩
  | cons op ops ih =>
      rw [List.forall_mem_cons] at valid
      obtain ⟨t, ran, result⟩ := refines.exec op
      obtain ⟨v, rest, final⟩ := ih (w := ⟨t, _, _⟩) result valid.2
      refine ⟨v, ?_, final⟩
      rw [run, Ledger.step, if_pos valid.1, ran, Option.map_some, Option.bind_some]
      exact rest

structure Cache.AddCall.Filed (c : AddCall) : Prop where
  valid : c.WellFormed
  accepted : c.refused = false
  calloc : c.callocOk = true
  malloc : c.mallocOk = true
  opens : c.opens = true
  maps : c.mapsFile = true

theorem Store.place_total (σ : Store) {c : Cache.AddCall} (malloc : c.mallocOk = true) :
    (σ.place c).1.total = σ.total + c.elementSize := by
  obtain ⟨disk, e, placed, url, length, -⟩ := σ.place_eq malloc
  rw [placed, total, insert, List.map_append, List.sum_append, List.map_singleton,
    List.sum_singleton, weight, url, length]
  rfl

theorem Store.add_roomy (σ : Store) {c : Cache.AddCall} (accepted : c.refused = false)
    (room : fits c.maxCacheSize c.elementSize σ.total = true) (calloc : c.callocOk = true) :
    σ.add c = σ.place c := by
  have stays : σ.evict c.maxCacheSize c.elementSize = σ := evictLoop_done _ (.inl room)
  rw [σ.add_eq accepted (by rwa [stays]) calloc, stays]

theorem not_ownsFiles_of_samePath {policy : CacheEvictionPolicy} {cacheDir : Bytes} {disk : Disk}
    {c c' : Cache.AddCall} {w : Ledger}
    (reached : run Ledger.step (Ledger.init policy cacheDir disk) [.add c, .add c'] = some w)
    (filed : c.Filed) (filed' : c'.Filed) (room : fits c.maxCacheSize c.elementSize 0 = true)
    (room' : fits c'.maxCacheSize c'.elementSize c.elementSize = true)
    (same : c'.diskPath cacheDir = c.diskPath cacheDir) : ¬ w.OwnsFiles := by
  intro always
  have valid : ∀ op ∈ [Op.add c, Op.add c'], op.WellFormed := by
    simpa [Op.WellFormed] using And.intro filed.valid filed'.valid
  obtain ⟨v, reached', refines⟩ := Ledger.run_some (w := Ledger.init policy cacheDir disk)
    (Refines.init policy cacheDir disk) valid
  rw [reached, Option.some.injEq] at reached'
  subst reached'
  let σ := Store.init policy cacheDir disk
  have first : σ.add c = σ.place c := σ.add_roomy filed.accepted room filed.calloc
  let τ := (σ.place c).1
  have total : τ.total = c.elementSize := (σ.place_total filed.malloc).trans (Nat.zero_add _)
  have second : τ.add c' = τ.place c' :=
    τ.add_roomy filed'.accepted (by rwa [total]) filed'.calloc
  have start : σ.OwnsFiles [] fun _ => none :=
    ⟨by simp [σ, Store.init], by simp [σ, Store.init], by simp [σ, Store.init]⟩
  have owns : τ.OwnsFiles _ _ :=
    (Store.ownsFiles_place start filed.valid).mpr fun _ => by simp [σ, Store.init, filed.maps]
  obtain ⟨x, member, file⟩ : ∃ x ∈ τ.items, x.entry.file = some (c.diskPath σ.cacheDir) :=
    (σ.file_place c _).mpr (.inr ⟨⟨filed.opens, filed.maps⟩, rfl⟩)
  have dir : τ.cacheDir = cacheDir := by
    obtain ⟨disk, e, placed, -⟩ := σ.place_eq filed.malloc
    simp only [τ, placed]
    rfl
  have final : Refines w.cache (τ.place c').1 := by
    simp only [List.foldl_cons, List.foldl_nil, Store.exec] at refines
    rwa [first, second] at refines
  have paths := always.paths
  rw [final.choose_spec.items] at paths
  refine (Store.paths_place owns c').mp paths filed'.opens filed'.maps x member ?_
  rw [dir, same]
  exact file

def largeCall (url : String) (byte : UInt8) : Cache.AddCall where
  data := List.replicate (128 * 1024 + 1) byte
  size := 128 * 1024 + 1
  url := ascii url
  maxElementSize := 2 ^ 20
  maxCacheSize := 2 ^ 20
  callocOk := true
  openOk := true
  written := 128 * 1024 + 1
  mmapOk := true
  mallocOk := true
  diskTime := 0
  useTime := 0
  expiryTime := 0

theorem largeCall_wellFormed (url : String) (byte : UInt8) : (largeCall url byte).WellFormed := by
  have size : (largeCall url byte).size = 131073 := rfl
  have length : (largeCall url byte).data.length = 131073 := List.length_replicate
  rw [Cache.AddCall.WellFormed, size, length]
  decide

theorem largeCall_cacheable (url : String) {byte : UInt8} (plain : tolower byte ≠ 99) :
    (largeCall url byte).notCacheable = false := by
  have absent {needle : Bytes} (mark : 99 ∈ needle.map tolower) :
      (strcasestr (cstr (largeCall url byte).data) needle).isSome = false := by
    rw [Bool.eq_false_iff, ne_eq, strcasestr_isSome]
    intro inside
    obtain ⟨c, member, lower⟩ := List.mem_map.mp (inside.subset mark)
    rw [List.eq_of_mem_replicate ((List.takeWhile_subset _) member)] at lower
    exact plain lower
  rw [Cache.AddCall.notCacheable, absent (by decide), absent (by decide), Bool.or_self]

theorem largeCall_filed (url : String) {byte : UInt8} (plain : tolower byte ≠ 99)
    (small : (largeCall url byte).elementSize = 131164) : (largeCall url byte).Filed where
  valid := largeCall_wellFormed url byte
  accepted := by
    rw [Cache.AddCall.refused, largeCall_cacheable url plain, small]
    rfl
  calloc := rfl
  malloc := rfl
  opens := rfl
  maps := rfl

theorem ownsFiles_iff_keepsFiles_large :
    ∃ w, run Ledger.step (Ledger.init .lru [] .empty) [.add (largeCall "ab" 65)] = some w ∧
      (EveryState Ledger.step (Ledger.init .lru [] .empty) [.add (largeCall "ab" 65)]
          Ledger.OwnsFiles ↔
        EveryStep Ledger.step (Ledger.init .lru [] .empty) [.add (largeCall "ab" 65)]
          fun w op => w.cache.KeepsFiles op) := by
  obtain ⟨w, reached, -⟩ : ∃ w, run Ledger.step (Ledger.init .lru [] .empty)
      [.add (largeCall "ab" 65)] = some w ∧ _ := Ledger.run_some (Refines.init .lru [] .empty)
    (by simpa [Op.WellFormed] using largeCall_wellFormed "ab" 65)
  exact ⟨w, reached, ownsFiles_iff_keepsFiles reached⟩

theorem colliding_urls_share_file :
    ∃ w, run Ledger.step (Ledger.init .lru [] .empty)
        [.add (largeCall "ab" 65), .add (largeCall "bA" 66)] = some w ∧ ¬ w.OwnsFiles := by
  obtain ⟨w, reached, -⟩ : ∃ w, run Ledger.step (Ledger.init .lru [] .empty)
      [.add (largeCall "ab" 65), .add (largeCall "bA" 66)] = some w ∧ _ :=
    Ledger.run_some (Refines.init .lru [] .empty)
    (by simpa [Op.WellFormed] using
      And.intro (largeCall_wellFormed "ab" 65) (largeCall_wellFormed "bA" 66))
  have size : (largeCall "ab" 65).elementSize = 131164 := by decide
  have size' : (largeCall "bA" 66).elementSize = 131164 := by decide
  refine ⟨w, reached, not_ownsFiles_of_samePath reached (largeCall_filed "ab" (by decide) size)
    (largeCall_filed "bA" (by decide) size') ?_ ?_ (by decide)⟩
  · rw [size]
    decide
  · rw [size, size']
    decide

end ProxyServer
