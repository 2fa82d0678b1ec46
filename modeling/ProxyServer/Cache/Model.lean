import ProxyServer.CString
import ProxyServer.Lib.Path

/-!
# The response cache

`cache.c` over an explicit heap. A pointer to a `CacheModule` is the number of its allocation, so
a freed address is never used again; following a null, freed or never allocated pointer fails
(`none`), and so does a loop over a list that runs for more steps than there are allocations.
Every function below runs with `LOCK` held throughout, except that `FindCache` releases it before
it calls `Cache_purge`; its locked part is `findLocked`. `strdup(URL)` is taken to succeed: the
source uses its result unchecked.
-/

namespace ProxyServer
open Lib

abbrev Addr := Nat

def hashTableSize : Nat := 1024

/-- `sizeof(CacheModule)` on a 64-bit platform: eleven words, the `bool` and the `int`s padded. -/
def sizeofCacheModule : Nat := 88

inductive CacheEvictionPolicy where
  | lru
  | lfu
  | ttl
  deriving DecidableEq, Repr

/-! ## Files of the disk tier -/

abbrev Inode := Nat

/-- The files under `g_cache_dir`. A mapping keeps its file alive after the name is gone, and a new
file is a new inode. -/
@[ext] structure Disk where
  names : Bytes → Option Inode
  files : Inode → Bytes
  nextInode : Inode
  named : ∀ path file, names path = some file → file < nextInode

namespace Disk

def empty : Disk where
  names _ := none
  files _ := []
  nextInode := 0
  named := by simp

/-- `open` with `O_CREAT | O_TRUNC`: an existing file is emptied, whoever has it mapped. -/
def openTrunc (d : Disk) (path : Bytes) : Disk × Inode :=
  match found : d.names path with
  | some file => ({ d with files := Function.update d.files file [] }, file)
  | none =>
      ({ names := Function.update d.names path (some d.nextInode)
         files := Function.update d.files d.nextInode []
         nextInode := d.nextInode + 1
         named := by
          intro p file named
          by_cases same : p = path
          · subst same
            simp only [Function.update_self, Option.some.injEq] at named
            exact named ▸ Nat.lt_succ_self _
          · rw [Function.update_of_ne same] at named
            exact Nat.lt_succ_of_lt (d.named p file named) }, d.nextInode)

def write (d : Disk) (file : Inode) (bytes : Bytes) : Disk :=
  { d with files := Function.update d.files file bytes }

def unlink (d : Disk) (path : Bytes) : Disk :=
  { d with
    names := Function.update d.names path none
    named := by
      intro p file named
      by_cases same : p = path
      · simp [same] at named
      · rw [Function.update_of_ne same] at named
        exact d.named p file named }

end Disk

/-! ## Entries -/

inductive Payload where
  | memory (bytes : Bytes)
  | mapped (file : Inode)
  deriving DecidableEq, Repr

def Payload.read (disk : Disk) : Payload → Bytes
  | .memory bytes => bytes
  | .mapped file => disk.files file

structure Entry where
  url : Bytes
  isOnDisk : Bool
  diskPath : Option Bytes
  data : Payload
  length : Int
  uptime : Int
  accessCount : Int
  expiresAt : Int
  deriving DecidableEq, Repr

structure CacheModule extends Entry where
  next : Option Addr
  prevLru : Option Addr
  nextLru : Option Addr
  deriving DecidableEq, Repr

structure Item where
  addr : Addr
  entry : Entry
  deriving DecidableEq, Repr

def hashUrl (url : Bytes) : Fin hashTableSize :=
  ⟨url.foldl (fun hash c => (hash * 33 + toSize (signedChar c)) % 2 ^ 64) 5381 % hashTableSize,
    Nat.mod_lt _ (by decide)⟩

def elementSize (length : Int) (url : Bytes) : Nat :=
  (toSize length + url.length + sizeofCacheModule + 1) % 2 ^ 64

def Entry.expired (e : Entry) (now : Int) : Bool := e.expiresAt > 0 && e.expiresAt < now

def Entry.touch (e : Entry) (now : Int) : Entry :=
  { e with uptime := now, accessCount := toInt (e.accessCount + 1) }

def Disk.forget (d : Disk) (e : Entry) : Disk :=
  if e.isOnDisk then e.diskPath.elim d d.unlink else d

theorem Disk.forget_comm (d : Disk) (e f : Entry) :
    (d.forget e).forget f = (d.forget f).forget e := by
  have unlinks (p q : Bytes) : (d.unlink p).unlink q = (d.unlink q).unlink p := by
    apply Disk.ext
    · funext b
      simp only [Disk.unlink, Function.update_apply]
      split_ifs <;> rfl
    · rfl
    · rfl
  unfold Disk.forget
  cases e.isOnDisk <;> cases f.isOnDisk <;> cases e.diskPath <;> cases f.diskPath <;>
    simp [unlinks]

theorem Disk.forget_frame (d : Disk) (e : Entry) :
    (d.forget e).files = d.files ∧ (d.forget e).nextInode = d.nextInode := by
  unfold Disk.forget
  cases e.isOnDisk <;> cases e.diskPath <;> exact ⟨rfl, rfl⟩

/-! ## The globals of `cache.c` -/

structure Cache where
  heap : Addr → Option CacheModule
  brk : Addr
  hashTable : Fin hashTableSize → Option Addr
  listHead : Option Addr
  listTail : Option Addr
  cacheSize : Nat
  policy : CacheEvictionPolicy
  cacheDir : Bytes
  disk : Disk

namespace Cache

def cacheInit (policy : CacheEvictionPolicy) (cacheDir : Bytes) (disk : Disk) : Cache where
  heap _ := none
  brk := 0
  hashTable _ := none
  listHead := none
  listTail := none
  cacheSize := 0
  policy
  cacheDir
  disk

def store (s : Cache) (a : Addr) (f : CacheModule → CacheModule) : Option Cache :=
  (s.heap a).map fun n => { s with heap := Function.update s.heap a (some (f n)) }

def setNext (s : Cache) (a : Addr) (p : Option Addr) : Option Cache :=
  s.store a fun n => { n with next := p }

def setPrevLru (s : Cache) (a : Addr) (p : Option Addr) : Option Cache :=
  s.store a fun n => { n with prevLru := p }

def setNextLru (s : Cache) (a : Addr) (p : Option Addr) : Option Cache :=
  s.store a fun n => { n with nextLru := p }

/-- `if (before) before->next_lru = p; else list_head = p;` -/
def linkForward (s : Cache) (before p : Option Addr) : Option Cache :=
  match before with
  | some b => s.setNextLru b p
  | none => some { s with listHead := p }

def linkBackward (s : Cache) (after p : Option Addr) : Option Cache :=
  match after with
  | some q => s.setPrevLru q p
  | none => some { s with listTail := p }

def listRemove (s : Cache) (node : Addr) : Option Cache := do
  let n ← s.heap node
  let s ← s.linkForward n.prevLru n.nextLru
  let n ← s.heap node
  s.linkBackward n.nextLru n.prevLru

def listAppend (s : Cache) (node : Addr) : Option Cache := do
  let s ← s.setNextLru node none
  let s ← s.setPrevLru node s.listTail
  let s ← s.linkForward s.listTail (some node)
  some { s with listTail := some node }

def listMoveToEnd (s : Cache) (node : Addr) : Option Cache := do
  let s ← s.listRemove node
  s.listAppend node

def walkChain (s : Cache) (h : Fin hashTableSize) (stop : CacheModule → Bool) :
    Option (Option Addr × Option Addr) :=
  walk s.heap (·.next) (fun _ n => stop n) (s.brk + 1) none (s.hashTable h)

/-- `if (before) before->NEXT = p; else HASH_TABLE[h] = p;` -/
def linkChain (s : Cache) (h : Fin hashTableSize) (before p : Option Addr) : Option Cache :=
  match before with
  | some b => s.setNext b p
  | none => some { s with hashTable := Function.update s.hashTable h p }

def release (s : Cache) (a : Addr) (n : CacheModule) : Cache :=
  { s with heap := Function.update s.heap a none, disk := s.disk.forget n.toEntry }

def discard (s : Cache) (a : Addr) : Option Cache := do
  let n ← s.heap a
  some ({ s with cacheSize := (s.cacheSize + 2 ^ 64 - elementSize n.length n.url) % 2 ^ 64 }.release
    a n)

/-! ## Lookup -/

inductive Lookup where
  | miss
  | expired
  | hit (a : Addr)
  deriving DecidableEq, Repr

def findLocked (s : Cache) (url : Bytes) (now : Int) : Option (Cache × Lookup) := do
  let (_, curr) ← s.walkChain (hashUrl url) fun n => n.url = url
  match curr with
  | none => some (s, .miss)
  | some a => do
      let n ← s.heap a
      if n.expired now then some (s, .expired)
      else do
        let s ← s.store a fun n => { n with toEntry := n.touch now }
        if s.policy = .lru then do
          let s ← s.listMoveToEnd a
          some (s, .hit a)
        else some (s, .hit a)

def cachePurge (s : Cache) (url : Bytes) : Option Cache := do
  let (prev, curr) ← s.walkChain (hashUrl url) fun n => n.url = url
  match curr with
  | none => some s
  | some a => do
      let n ← s.heap a
      let s ← s.linkChain (hashUrl url) prev n.next
      let s ← s.listRemove a
      s.discard a

def findCache (s : Cache) (url : Bytes) (now : Int) : Option (Cache × Option Addr) := do
  let (s, result) ← s.findLocked url now
  match result with
  | .miss => some (s, none)
  | .hit a => some (s, some a)
  | .expired => do
      let s ← s.cachePurge url
      some (s, none)

/-! ## Eviction -/

def victimKey (policy : CacheEvictionPolicy) (e : Entry) : Int :=
  match policy with
  | .lru => 0
  | .lfu => e.accessCount
  | .ttl => e.expiresAt

/-- `while (curr) { if (key(curr) < key(best)) best = curr; curr = curr->next_lru; }` -/
def scanVictim (s : Cache) (key : Entry → Int) : Nat → Option Addr → Addr → Option Addr
  | 0, _, _ => none
  | _ + 1, none, best => some best
  | fuel + 1, some curr, best => do
      let n ← s.heap curr
      let b ← s.heap best
      scanVictim s key fuel n.nextLru (if key n.toEntry < key b.toEntry then curr else best)

def chooseVictim (s : Cache) (head : Addr) : Option Addr :=
  match s.policy with
  | .lru => some head
  | policy => s.scanVictim (victimKey policy) (s.brk + 1) (some head) head

def unlinkVictim (s : Cache) (h : Fin hashTableSize) (victim : Addr) (n : CacheModule) :
    Option Cache :=
  if s.hashTable h = some victim then
    some { s with hashTable := Function.update s.hashTable h n.next }
  else do
    let (_, curr) ← s.walkChain h fun m => m.next = some victim
    match curr with
    | some c => s.setNext c n.next
    | none => some s

def removeCache (s : Cache) : Option Cache :=
  match s.listHead with
  | none => some s
  | some head => do
      let victim ← s.chooseVictim head
      let s ← s.listRemove victim
      let n ← s.heap victim
      let s ← s.unlinkVictim (hashUrl n.url) victim n
      s.discard victim

def evictLoop (maxCacheSize size : Nat) : Nat → Cache → Option Cache
  | 0, _ => none
  | fuel + 1, s =>
      if (s.cacheSize + size) % 2 ^ 64 > maxCacheSize ∧ s.listHead ≠ none then do
        let s ← s.removeCache
        evictLoop maxCacheSize size fuel s
      else some s

/-! ## Insertion -/

/-- One call of `AddCache`: its arguments (`data` the buffer that `DATA` points to, up to its
terminator), the limits in force, and what the system calls it makes return. -/
structure AddCall where
  data : Bytes
  size : Int
  url : Bytes
  maxElementSize : Nat
  maxCacheSize : Nat
  callocOk : Bool
  openOk : Bool
  written : Int
  mmapOk : Bool
  mallocOk : Bool
  diskTime : Int
  useTime : Int
  expiryTime : Int
  deriving Repr

namespace AddCall

def notCacheable (c : AddCall) : Bool :=
  (strcasestr (cstr c.data) (ascii "Cache-Control: no-store")).isSome ||
    (strcasestr (cstr c.data) (ascii "Cache-Control: no-cache")).isSome

def maxAge (c : AddCall) : Int :=
  match strcasestr (cstr c.data) (ascii "Cache-Control:") with
  | none => -1
  | some cc =>
      match strcasestr cc (ascii "max-age=") with
      | none => -1
      | some ma => atoi (ma.drop 8)

def expiresAt (c : AddCall) : Int :=
  if c.maxAge > 0 then c.expiryTime + c.maxAge else c.expiryTime + 3600

def elementSize (c : AddCall) : Nat := ProxyServer.elementSize c.size c.url

def refused (c : AddCall) : Bool := c.notCacheable || c.elementSize > c.maxElementSize

def diskPath (c : AddCall) (cacheDir : Bytes) : Bytes :=
  (cacheDir ++ ascii "/cache_" ++ ascii (toString (hashUrl c.url).val) ++ ascii "_" ++
    ascii (toString c.diskTime) ++ ascii ".bin").take 511

def toDisk (c : AddCall) (path : Bytes) (d : Disk) : Disk × Option Inode :=
  if c.size > 128 * 1024 ∧ c.openOk then
    let opened := d.openTrunc path
    let disk := opened.1.write opened.2 (c.data.take c.written.toNat)
    (disk, if c.written = c.size ∧ c.mmapOk then some opened.2 else none)
  else (d, none)

def entry (c : AddCall) (path : Bytes) (file : Option Inode) : Option Entry :=
  let made (payload : Payload) (isOnDisk : Bool) (diskPath : Option Bytes) : Entry :=
    { url := c.url, isOnDisk, diskPath, data := payload, length := c.size, uptime := c.useTime,
      accessCount := 1, expiresAt := c.expiresAt }
  match file with
  | some file => some (made (.mapped file) true (some path))
  | none =>
      if c.mallocOk then some (made (.memory (c.data.take c.size.toNat ++ [0])) false none)
      else none

theorem entry_shape {c : AddCall} {path : Bytes} {file : Option Inode}
    {e : Entry} (made : c.entry path file = some e) :
    e.url = c.url ∧ e.length = c.size ∧ e.expiresAt = c.expiresAt := by
  cases file with
  | none =>
      simp only [entry, Option.ite_none_right_eq_some, Option.some.injEq] at made
      simp [← made.2]
  | some file =>
      simp only [entry, Option.some.injEq] at made
      simp [← made]

end AddCall

def insert (s : Cache) (e : Entry) (size : Nat) : Option Cache := do
  let node := s.brk
  let h := hashUrl e.url
  let s := { s with
    heap := Function.update s.heap node
      (some { toEntry := e, next := s.hashTable h, prevLru := none, nextLru := none })
    brk := node + 1
    hashTable := Function.update s.hashTable h (some node) }
  let s ← s.listAppend node
  some { s with cacheSize := (s.cacheSize + size) % 2 ^ 64 }

def place (s : Cache) (c : AddCall) : Option (Cache × Int) :=
  let placed := c.toDisk (c.diskPath s.cacheDir) s.disk
  match c.entry (c.diskPath s.cacheDir) placed.2 with
  | none => some ({ s with disk := placed.1 }, 0)
  | some e => do
      let s ← { s with disk := placed.1 }.insert e c.elementSize
      some (s, 1)

def addCache (s : Cache) (c : AddCall) : Option (Cache × Int) :=
  if c.refused then some (s, 0)
  else do
    let s ← evictLoop c.maxCacheSize c.elementSize (s.brk + 1) s
    if (s.cacheSize + c.elementSize) % 2 ^ 64 > c.maxCacheSize then some (s, 0)
    else if c.callocOk = false then some (s, 0)
    else s.place c

/-! ## The rest of the interface -/

def clearChain : Nat → Cache → Option Addr → Option Cache
  | 0, _, _ => none
  | _ + 1, s, none => some s
  | fuel + 1, s, some a => do
      let n ← s.heap a
      clearChain fuel (s.release a n) n.next

def cacheClear (s : Cache) : Option Cache := do
  let s ← (List.finRange hashTableSize).foldlM (fun s i => do
    let s ← clearChain (s.brk + 1) s (s.hashTable i)
    some { s with hashTable := Function.update s.hashTable i none }) s
  some { s with listHead := none, listTail := none, cacheSize := 0 }

def cacheSetEvictionPolicy (s : Cache) (policy : CacheEvictionPolicy) : Cache := { s with policy }

end Cache
end ProxyServer
