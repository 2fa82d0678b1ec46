import ProxyServer.ProxyParse.Headers

namespace ProxyServer.ProxyParse
open Lib Lib.Block

inductive HeaderCall where
  | set (key value : Bytes)
  | remove (key : Bytes)

def HeaderCall.mention : HeaderCall → Bytes × Option Bytes
  | .set key value => (key, some value)
  | .remove key => (key, none)

def HeaderCall.run (pr : ParsedRequest) : HeaderCall → Checked ParsedRequest
  | .set key value => parsedHeaderSet pr key value
  | .remove key => .ok (parsedHeaderRemove pr key).2

def runCalls (pr : ParsedRequest) (calls : List HeaderCall) : Checked ParsedRequest :=
  calls.foldlM HeaderCall.run pr

def headerOf (pr : ParsedRequest) (key : Bytes) : Option ParsedHeader :=
  parsedHeaderGet pr key >>= (pr.headers[·]?)

def mentions (calls : List HeaderCall) : List (Bytes × Option Bytes) :=
  calls.map HeaderCall.mention

variable {pr : ParsedRequest}

theorem headerOf_eq_some (distinct : (keys pr.fields).Nodup) {key : Bytes} {slot : ParsedHeader} :
    headerOf pr key = some slot ↔ ∃ value, (key, value) ∈ pr.fields ∧ slot = ⟨some key, value⟩ := by
  constructor
  · intro found
    by_cases present : key ∈ keys pr.fields
    · obtain ⟨⟨key, value⟩, member, rfl⟩ := List.mem_map.mp present
      rw [headerOf, slot_some distinct member] at found
      exact ⟨value, member, (Option.some.inj found).symm⟩
    · rw [headerOf, slot_none present] at found
      cases found
  · rintro ⟨value, member, rfl⟩
    exact slot_some distinct member

theorem Intact.call (intact : Intact pr) (call : HeaderCall) :
    ∃ pr', call.run pr = .ok pr' ∧ Intact pr' ∧ ∀ pairs, pr.fields = valued pairs →
      pr'.fields = valued (assign pairs call.mention) := by
  cases call with
  | set key value =>
      obtain ⟨pr', stored, intact', -, fields⟩ := intact.set key value
      refine ⟨pr', stored, intact', fun pairs before => ?_⟩
      rw [fields, before]
      exact (valued_assign_some pairs key value).symm
  | remove key =>
      refine ⟨_, rfl, intact.remove key, fun pairs before => ?_⟩
      rw [intact.fields_remove, before]
      exact (valued_assign_none pairs key).symm

theorem runCalls_ok (word : Nat) (calls : List HeaderCall) :
    ∃ pr, runCalls (parsedRequestCreate word) calls = .ok pr ∧ Intact pr ∧
      pr.fields = valued (latest (mentions calls)) := by
  induction calls using List.reverseRecOn with
  | nil => exact ⟨_, rfl, .create word, rfl⟩
  | append_singleton calls call ih =>
      obtain ⟨pr, ran, intact, fields⟩ := ih
      obtain ⟨pr', taken, intact', fields'⟩ := intact.call call
      refine ⟨pr', ?_, intact', ?_⟩
      · rw [runCalls, List.foldlM_append]
        rw [runCalls] at ran
        rw [ran, ok_bind, List.foldlM_cons, taken]
        rfl
      · rw [mentions, List.map_append, List.map_singleton, latest_concat]
        exact fields' _ fields

theorem Intact.headerOf_call (intact : Intact pr) {call : HeaderCall} {pr' : ParsedRequest}
    (taken : call.run pr = .ok pr') {other : Bytes} (different : other ≠ call.mention.1) :
    headerOf pr' other = headerOf pr other := by
  obtain ⟨pr'', taken', intact', fields⟩ := intact.call call
  obtain rfl : pr' = pr'' := Except.ok.inj (taken.symm.trans taken')
  have fields := fields (pr.fields.map fun pair => (pair.1, some pair.2))
    (by simp [valued, List.filterMap_map])
  apply Option.ext
  intro slot
  rw [headerOf_eq_some intact'.distinct, headerOf_eq_some intact.distinct]
  refine exists_congr fun value => and_congr_left fun _ => ?_
  rw [fields, mem_valued, assign, List.mem_append, mem_without, List.mem_singleton]
  have notMentioned : (other, some value) ≠ call.mention := fun same =>
    different (congrArg Prod.fst same)
  simp [notMentioned, different]

theorem parsedHeaderRemove_eq_zero {key : Bytes} :
    (parsedHeaderRemove pr key).1 = 0 ↔ key ∈ keys pr.fields := by
  rw [parsedHeaderRemove, ← not_iff_not, ← parsedHeaderGet_none]
  cases parsedHeaderGet pr key with
  | none => simp
  | some i => simp

theorem parsedHeaderGet_lt {key : Bytes} {i : Nat} (found : parsedHeaderGet pr key = some i) :
    i < pr.headers.length := by
  obtain ⟨before, value, after, split, rfl⟩ := parsedHeaderGet_some found
  rw [split]
  simp

/-- After any calls the table maps each key to the value of its last `set`, unless a `remove` came
after it, with its slots in the order of these. -/
theorem headerTable_ordered (word : Nat) (calls : List HeaderCall) :
    ∃ pr, runCalls (parsedRequestCreate word) calls = .ok pr ∧
      (∀ key slot, headerOf pr key = some slot ↔ ∃ value,
        lastMention key (mentions calls) = some (some value) ∧ slot = ⟨some key, value⟩) ∧
      (∀ key, (parsedHeaderRemove pr key).1 = 0 ↔ ∃ slot, headerOf pr key = some slot) ∧
      (keys pr.fields).Nodup ∧
      pr.fields = valued (latest (mentions calls)) ∧
      (∀ call : HeaderCall, ∃ pr', call.run pr = .ok pr' ∧
        ∀ other ≠ call.mention.1, headerOf pr' other = headerOf pr other) ∧
      (∀ key i, parsedHeaderGet pr key = some i → i < pr.headerslen) ∧
      ∀ key value, ∃ pr', parsedHeaderSet pr key value = .ok pr' ∧
        pr'.headers[pr.headers.length]? = some ⟨some key, value⟩ ∧
        pr.headers.length < pr'.headerslen := by
  obtain ⟨pr, ran, intact, fields⟩ := runCalls_ok word calls
  have live : ∀ key slot, headerOf pr key = some slot ↔ ∃ value,
      (key, value) ∈ pr.fields ∧ slot = ⟨some key, value⟩ :=
    fun key slot => headerOf_eq_some intact.distinct
  refine ⟨pr, ran, fun key slot => ?_, fun key => ?_, intact.distinct, fields, fun call => ?_,
    fun key i found => ?_, fun key value => ?_⟩
  · rw [live]
    refine exists_congr fun value => and_congr_left fun _ => ?_
    rw [fields, mem_valued, mem_latest]
  · rw [parsedHeaderRemove_eq_zero, keys, List.mem_map]
    constructor
    · rintro ⟨⟨key, value⟩, member, rfl⟩
      exact ⟨_, (live key _).mpr ⟨value, member, rfl⟩⟩
    · rintro ⟨slot, found⟩
      obtain ⟨value, member, -⟩ := (live key slot).mp found
      exact ⟨_, member, rfl⟩
  · obtain ⟨pr', taken, -, -⟩ := intact.call call
    exact ⟨pr', taken, fun other different => intact.headerOf_call taken different⟩
  · exact (parsedHeaderGet_lt found).trans intact.room
  · obtain ⟨pr', stored, room, -, headers⟩ := intact.room.set key value
    have used := length_parsedHeaderRemove pr key
    refine ⟨pr', stored, ?_, ?_⟩
    · rw [headers, ← used, List.getElem?_concat_length]
    · rw [HasRoom, headers, List.length_append, used] at room
      exact Nat.lt_of_succ_lt room

end ProxyServer.ProxyParse
