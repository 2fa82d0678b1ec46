import ProxyServer.Cache.Model

namespace ProxyServer
open Lib

namespace Cache

def links (s : Cache) : Links Addr where
  head := s.listHead
  tail := s.listTail
  next a := (s.heap a).bind (·.nextLru)
  prev a := (s.heap a).bind (·.prevLru)

def chainNext (s : Cache) (a : Addr) : Option Addr := (s.heap a).bind (·.next)

def entry (s : Cache) (a : Addr) : Option Entry := (s.heap a).map (·.toEntry)

def follow (s : Cache) : Nat → Option Addr → List Item
  | 0, _ => []
  | _ + 1, none => []
  | fuel + 1, some a =>
      match s.heap a with
      | none => []
      | some n => ⟨a, n.toEntry⟩ :: follow s fuel n.nextLru

def items (s : Cache) : List Item := s.follow s.brk s.listHead

theorem entry_some {s : Cache} {a : Addr} {n : CacheModule} (read : s.heap a = some n) :
    s.entry a = some n.toEntry := by
  simp [entry, read]

theorem heap_of_entry {s : Cache} {a : Addr} {e : Entry} (live : s.entry a = some e) :
    ∃ n, s.heap a = some n ∧ n.toEntry = e :=
  Option.map_eq_some_iff.mp live

theorem links_next {s : Cache} {a : Addr} {n : CacheModule} (read : s.heap a = some n) :
    s.links.next a = n.nextLru := by
  simp [links, read]

theorem links_prev {s : Cache} {a : Addr} {n : CacheModule} (read : s.heap a = some n) :
    s.links.prev a = n.prevLru := by
  simp [links, read]

theorem chainNext_some {s : Cache} {a : Addr} {n : CacheModule} (read : s.heap a = some n) :
    s.chainNext a = n.next := by
  simp [chainNext, read]

structure SameChains (s s' : Cache) : Prop where
  entry : s'.entry = s.entry
  chainNext : s'.chainNext = s.chainNext
  hashTable : s'.hashTable = s.hashTable
  brk : s'.brk = s.brk
  cacheSize : s'.cacheSize = s.cacheSize
  policy : s'.policy = s.policy
  cacheDir : s'.cacheDir = s.cacheDir
  disk : s'.disk = s.disk

theorem SameChains.refl (s : Cache) : SameChains s s := ⟨rfl, rfl, rfl, rfl, rfl, rfl, rfl, rfl⟩

theorem SameChains.trans {s t u : Cache} (left : SameChains s t) (right : SameChains t u) :
    SameChains s u where
  entry := right.entry.trans left.entry
  chainNext := right.chainNext.trans left.chainNext
  hashTable := right.hashTable.trans left.hashTable
  brk := right.brk.trans left.brk
  cacheSize := right.cacheSize.trans left.cacheSize
  policy := right.policy.trans left.policy
  cacheDir := right.cacheDir.trans left.cacheDir
  disk := right.disk.trans left.disk

structure SameList (s s' : Cache) : Prop where
  links : s'.links = s.links
  entry : s'.entry = s.entry
  brk : s'.brk = s.brk
  cacheSize : s'.cacheSize = s.cacheSize
  policy : s'.policy = s.policy
  cacheDir : s'.cacheDir = s.cacheDir
  disk : s'.disk = s.disk

theorem field_update {β : Type} {heap : Addr → Option CacheModule} {a : Addr} {m : CacheModule}
    (field : Option CacheModule → β) (v : β) (written : field (some m) = v) :
    (fun b => field (Function.update heap a (some m) b)) =
      Function.update (fun b => field (heap b)) a v := by
  funext b
  by_cases same : b = a
  · subst same
    simp [written]
  · simp [Function.update_of_ne same]

theorem field_keep {β : Type} {heap : Addr → Option CacheModule} {a : Addr} {n m : CacheModule}
    (field : Option CacheModule → β) (read : heap a = some n)
    (kept : field (some m) = field (some n)) :
    (fun b => field (Function.update heap a (some m) b)) = fun b => field (heap b) := by
  rw [field_update field _ kept, ← read]
  exact Function.update_eq_self a _

theorem store_eq {s : Cache} {a : Addr} {n : CacheModule} (read : s.heap a = some n)
    (f : CacheModule → CacheModule) :
    s.store a f = some { s with heap := Function.update s.heap a (some (f n)) } := by
  simp [store, read]

theorem setNext_spec {s : Cache} {a : Addr} {e : Entry} (p : Option Addr)
    (live : s.entry a = some e) :
    ∃ s', s.setNext a p = some s' ∧ s'.chainNext = Function.update s.chainNext a p ∧
      SameList s s' ∧ s'.hashTable = s.hashTable := by
  obtain ⟨n, read, -⟩ := heap_of_entry live
  refine ⟨_, store_eq read _, field_update (·.bind (·.next)) p rfl, ?_, rfl⟩
  exact ⟨Links.ext rfl rfl (field_keep (·.bind (·.nextLru)) read rfl)
    (field_keep (·.bind (·.prevLru)) read rfl),
    field_keep (Option.map CacheModule.toEntry) read rfl, rfl, rfl, rfl, rfl, rfl⟩

theorem setNextLru_spec {s : Cache} {a : Addr} {e : Entry} (p : Option Addr)
    (live : s.entry a = some e) :
    ∃ s', s.setNextLru a p = some s' ∧
      s'.links = { s.links with next := Function.update s.links.next a p } ∧ SameChains s s' := by
  obtain ⟨n, read, -⟩ := heap_of_entry live
  refine ⟨_, store_eq read _, ?_, ?_⟩
  · exact Links.ext rfl rfl (field_update (·.bind (·.nextLru)) p rfl)
      (field_keep (·.bind (·.prevLru)) read rfl)
  · exact ⟨field_keep (Option.map CacheModule.toEntry) read rfl,
      field_keep (·.bind (·.next)) read rfl, rfl, rfl, rfl, rfl, rfl, rfl⟩

theorem setPrevLru_spec {s : Cache} {a : Addr} {e : Entry} (p : Option Addr)
    (live : s.entry a = some e) :
    ∃ s', s.setPrevLru a p = some s' ∧
      s'.links = { s.links with prev := Function.update s.links.prev a p } ∧ SameChains s s' := by
  obtain ⟨n, read, -⟩ := heap_of_entry live
  refine ⟨_, store_eq read _, ?_, ?_⟩
  · exact Links.ext rfl rfl (field_keep (·.bind (·.nextLru)) read rfl)
      (field_update (·.bind (·.prevLru)) p rfl)
  · exact ⟨field_keep (Option.map CacheModule.toEntry) read rfl,
      field_keep (·.bind (·.next)) read rfl, rfl, rfl, rfl, rfl, rfl, rfl⟩

theorem linkForward_spec {s : Cache} (before p : Option Addr)
    (live : ∀ b, before = some b → s.entry b ≠ none) :
    ∃ s', s.linkForward before p = some s' ∧ SameChains s s' ∧
      s'.links = { s.links with
        head := (relink s.links.head s.links.next before p).1
        next := (relink s.links.head s.links.next before p).2 } := by
  cases before with
  | none => exact ⟨_, rfl, ⟨rfl, rfl, rfl, rfl, rfl, rfl, rfl, rfl⟩, rfl⟩
  | some b =>
      obtain ⟨e, found⟩ := Option.ne_none_iff_exists'.mp (live b rfl)
      obtain ⟨s', stored, links, same⟩ := setNextLru_spec p found
      exact ⟨s', stored, same, links⟩

theorem linkBackward_spec {s : Cache} (after p : Option Addr)
    (live : ∀ q, after = some q → s.entry q ≠ none) :
    ∃ s', s.linkBackward after p = some s' ∧ SameChains s s' ∧
      s'.links = { s.links with
        tail := (relink s.links.tail s.links.prev after p).1
        prev := (relink s.links.tail s.links.prev after p).2 } := by
  cases after with
  | none => exact ⟨_, rfl, ⟨rfl, rfl, rfl, rfl, rfl, rfl, rfl, rfl⟩, rfl⟩
  | some q =>
      obtain ⟨e, found⟩ := Option.ne_none_iff_exists'.mp (live q rfl)
      obtain ⟨s', stored, links, same⟩ := setPrevLru_spec p found
      exact ⟨s', stored, same, links⟩

theorem listRemove_spec {s : Cache} {a : Addr} {e : Entry} (live : s.entry a = some e)
    (before : ∀ p, s.links.prev a = some p → s.entry p ≠ none)
    (after : ∀ q, (s.links.remove a).next a = some q → s.entry q ≠ none) :
    ∃ s', s.listRemove a = some s' ∧ s'.links = s.links.remove a ∧ SameChains s s' := by
  obtain ⟨n, read, -⟩ := heap_of_entry live
  rw [links_prev read] at before
  obtain ⟨t, first, same, links⟩ := linkForward_spec n.prevLru n.nextLru before
  obtain ⟨m, reread, -⟩ := heap_of_entry (s := t) (a := a) (e := e) (by rw [same.entry, live])
  have nextEq : m.nextLru = (s.links.remove a).next a := by
    rw [← links_next reread, links, Links.remove, links_prev read, links_next read]
  have prevEq : m.prevLru = s.links.prev a := by rw [← links_prev reread, links]
  obtain ⟨u, second, sameAfter, linksAfter⟩ := linkBackward_spec (s := t) m.nextLru
    m.prevLru (by rw [nextEq, same.entry]; exact after)
  refine ⟨u, ?_, ?_, same.trans sameAfter⟩
  · simp only [listRemove, read, Option.bind_eq_bind, Option.bind_some, first, reread, second]
  · rw [linksAfter, links, nextEq, prevEq]
    simp only [Links.remove, links_prev read, links_next read]

theorem listAppend_spec {s : Cache} {a : Addr} {e : Entry} (live : s.entry a = some e)
    (tail : ∀ t, s.links.tail = some t → s.entry t ≠ none) :
    ∃ s', s.listAppend a = some s' ∧ s'.links = s.links.append a ∧ SameChains s s' := by
  obtain ⟨t, first, links, same⟩ := setNextLru_spec none live
  have tailEq : t.listTail = s.links.tail := congrArg Links.tail links
  obtain ⟨u, second, linksU, sameU⟩ := setPrevLru_spec (s := t) (a := a) (e := e) t.listTail
    (by rw [same.entry, live])
  have tailU : u.listTail = s.links.tail := by rw [← tailEq]; exact congrArg Links.tail linksU
  obtain ⟨v, third, sameV, linksV⟩ := linkForward_spec (s := u) u.listTail (some a)
    (by rw [tailU, sameU.entry, same.entry]; exact tail)
  refine ⟨{ v with listTail := some a }, ?_, ?_, ?_⟩
  · simp only [listAppend, first, second, third, Option.bind_eq_bind, Option.bind_some]
  · change { v.links with tail := some a } = _
    rw [linksV, linksU, links, tailU, tailEq]
    rfl
  · have all := (same.trans sameU).trans sameV
    exact ⟨all.entry, all.chainNext, all.hashTable, all.brk, all.cacheSize, all.policy,
      all.cacheDir, all.disk⟩

theorem linkChain_spec {s : Cache} {h : Fin hashTableSize} {before : Option Addr} (p : Option Addr)
    (live : ∀ b, before = some b → s.entry b ≠ none) :
    ∃ s', s.linkChain h before p = some s' ∧ SameList s s' ∧
      s'.hashTable = Function.update s.hashTable h (relink (s.hashTable h) s.chainNext before p).1 ∧
      s'.chainNext = (relink (s.hashTable h) s.chainNext before p).2 := by
  cases before with
  | none => exact ⟨_, rfl, ⟨rfl, rfl, rfl, rfl, rfl, rfl, rfl⟩, rfl, rfl⟩
  | some b =>
      obtain ⟨e, found⟩ := Option.ne_none_iff_exists'.mp (live b rfl)
      obtain ⟨s', stored, chain, same, table⟩ := setNext_spec p found
      refine ⟨s', stored, same, ?_, chain⟩
      simp only [relink, table, Function.update_eq_self]

end Cache
end ProxyServer
