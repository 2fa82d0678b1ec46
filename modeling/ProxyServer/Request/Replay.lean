import ProxyServer.Cache.Entries
import ProxyServer.Request.Responses

namespace ProxyServer
open Lib

variable {maxBytes : Nat}

structure ResponseWrite where
  offset : Nat
  size : Nat
  capacity : Nat
  deriving DecidableEq, Repr

def ResponseWrite.InBounds (w : ResponseWrite) : Prop := w.offset + w.size ≤ w.capacity

/-- The final zero byte. `capacity` is `RESPONSE_CAPACITY`, `allocated` what `RESPONSE` has; the
`realloc` made here when there is no room is taken to succeed. -/
def finalWrite (capacity allocated : Nat) (response : Bytes) : ResponseWrite where
  offset := response.length
  size := 1
  capacity := if capacity < response.length + 1 then response.length + 1 else allocated

def responseWrites (f : ContentFilter) :
    Nat → Nat → Bytes → List (Chunk maxBytes) → List ResponseWrite
  | capacity, allocated, response, [] => [finalWrite capacity allocated response]
  | capacity, allocated, response, chunk :: rest =>
      let needed := response.length + chunk.bytes.length + 1
      if capacity < needed ∧ chunk.realloc = false then
        [finalWrite (capacity * 2) allocated response]
      else
        let allocated := if capacity < needed then capacity * 2 else allocated
        let capacity := grow capacity needed
        let write := ⟨response.length, chunk.bytes.length, allocated⟩
        let response := response ++ chunk.bytes
        if (headersComplete response && contentBlocked f response) || chunk.sent.isNone then
          [write, finalWrite capacity allocated response]
        else write :: responseWrites f capacity allocated response rest

def Exchange.responseWrites (f : ContentFilter) (x : Exchange maxBytes) : List ResponseWrite :=
  ProxyServer.responseWrites f maxBytes maxBytes [] x.chunks

theorem finalWrite_inBounds {capacity : Nat} {response : Bytes}
    (room : response.length < capacity) : (finalWrite capacity capacity response).InBounds := by
  simp only [ResponseWrite.InBounds, finalWrite]
  split <;> omega

theorem responseWrites_inBounds (f : ContentFilter) {capacity : Nat} {response : Bytes}
    (chunks : List (Chunk maxBytes)) (room : response.length < capacity)
    (large : maxBytes ≤ capacity) :
    ∀ w ∈ responseWrites f capacity capacity response chunks, w.InBounds := by
  induction chunks generalizing capacity response with
  | nil => simpa [responseWrites] using finalWrite_inBounds room
  | cons chunk rest ih =>
      have enough := grow_enough room (chunk.fits.trans large)
      have fits : (response ++ chunk.bytes).length <
          grow capacity (response.length + chunk.bytes.length + 1) := by
        rw [List.length_append]
        omega
      have grown : (if capacity < response.length + chunk.bytes.length + 1 then capacity * 2
          else capacity) = grow capacity (response.length + chunk.bytes.length + 1) := rfl
      have write : (⟨response.length, chunk.bytes.length,
          grow capacity (response.length + chunk.bytes.length + 1)⟩ : ResponseWrite).InBounds := by
        simp only [ResponseWrite.InBounds]
        omega
      rw [responseWrites]
      split
      · simp only [List.mem_singleton, forall_eq, ResponseWrite.InBounds, finalWrite]
        split <;> omega
      · simp only [grown]
        split
        · simpa using ⟨write, finalWrite_inBounds fits⟩
        · exact List.forall_mem_cons.mpr ⟨write, ih fits (large.trans (grow_le _ _))⟩

theorem responseWrites_capacity (f : ContentFilter) {capacity : Nat} {response : Bytes}
    (chunks : List (Chunk maxBytes))
    (small : response.length + (contents chunks).length < 2 ^ 31)
    (bounded : capacity ≤ maxBytes ∨ capacity < 2 ^ 32) :
    ∀ w ∈ responseWrites f capacity capacity response chunks,
      w.capacity ≤ maxBytes ∨ w.capacity < 2 ^ 32 := by
  induction chunks generalizing capacity response with
  | nil =>
      simp only [responseWrites, List.mem_singleton, forall_eq, finalWrite]
      split <;> omega
  | cons chunk rest ih =>
      have shorter : (response ++ chunk.bytes).length + (contents rest).length < 2 ^ 31 := by
        simpa [contents, Nat.add_assoc] using small
      rw [List.length_append] at shorter
      have grown : grow capacity (response.length + chunk.bytes.length + 1) ≤ maxBytes ∨
          grow capacity (response.length + chunk.bytes.length + 1) < 2 ^ 32 := by
        unfold grow
        split <;> omega
      have same : (if capacity < response.length + chunk.bytes.length + 1 then capacity * 2
          else capacity) = grow capacity (response.length + chunk.bytes.length + 1) := rfl
      rw [responseWrites]
      split
      · simp only [List.mem_singleton, forall_eq, finalWrite]
        split <;> omega
      · simp only [same]
        split
        · simp only [List.mem_cons, List.not_mem_nil, or_false, forall_eq_or_imp, forall_eq,
            finalWrite, List.length_append]
          refine ⟨grown, ?_⟩
          split <;> omega
        · exact List.forall_mem_cons.mpr ⟨grown, ih (by simpa using shorter) grown⟩

/-- The inner loop, with room for so many bytes in `RESPONSE`: what it adds and where `POS` is after
it. Reading past `DATA` fails. -/
def fillPiece (data : Bytes) (size : Int) : Nat → Nat → Option (Bytes × Nat)
  | 0, pos => some ([], pos)
  | room + 1, pos =>
      if pos < size then do
        let byte ← data[pos]?
        let (piece, pos) ← fillPiece data size room (pos + 1)
        some (byte :: piece, pos)
      else some ([], pos)

def replayLoop (maxBytes : Nat) (data : Bytes) (size : Int) : Nat → Nat → Option (List Bytes)
  | 0, _ => none
  | fuel + 1, pos =>
      if pos < size then do
        let (piece, pos) ← fillPiece data size maxBytes pos
        let later ← replayLoop maxBytes data size fuel pos
        some (piece :: later)
      else some []

def Entry.replay (maxBytes : Nat) (disk : Disk) (e : Entry) : Option (List Bytes) :=
  replayLoop maxBytes (e.data.read disk) e.length (e.length.toNat + 1) 0

theorem fillPiece_eq {data : Bytes} {size : Nat} (inside : size ≤ data.length) (room pos : Nat)
    (before : pos ≤ size) :
    fillPiece data size room pos =
      some ((data.take (min (pos + room) size)).drop pos, min (pos + room) size) := by
  induction room generalizing pos with
  | zero => simp [fillPiece, before]
  | succ room ih =>
      rw [fillPiece]
      by_cases more : pos < size
      · have byte : data[pos]? = some data[pos] := List.getElem?_eq_getElem (by omega)
        have next : min (pos + (room + 1)) size = min (pos + 1 + room) size := by omega
        rw [if_pos (by exact_mod_cast more), byte, ih (pos + 1) more, next]
        have cut : pos < (data.take (min (pos + 1 + room) size)).length := by
          rw [List.length_take]
          omega
        simp [List.drop_eq_getElem_cons cut]
      · have done : pos = size := by omega
        rw [if_neg (by exact_mod_cast more), done, Nat.min_eq_right (by omega)]
        simp

theorem replayLoop_flatten {data : Bytes} {size : Nat} (inside : size ≤ data.length)
    (positive : 0 < maxBytes) {fuel pos : Nat} (before : pos ≤ size) (enough : size - pos < fuel) :
    ∃ pieces, replayLoop maxBytes data size fuel pos = some pieces ∧
      pieces.flatten = (data.take size).drop pos := by
  induction fuel generalizing pos with
  | zero => omega
  | succ fuel ih =>
      rw [replayLoop]
      by_cases more : pos < size
      · obtain ⟨later, ran, rest⟩ :=
          ih (Nat.min_le_right (pos + maxBytes) size) (by omega)
        refine ⟨(data.take (min (pos + maxBytes) size)).drop pos :: later, ?_, ?_⟩
        · rw [if_pos (by exact_mod_cast more), fillPiece_eq inside maxBytes pos before]
          simp [ran]
        · have stop : pos ≤ min (pos + maxBytes) size := by omega
          have cut : data.take (min (pos + maxBytes) size) =
              (data.take size).take (min (pos + maxBytes) size) := by
            rw [List.take_take, Nat.min_eq_left (Nat.min_le_right _ _)]
          rw [List.flatten_cons, rest, cut, ← List.drop_append_of_le_length, List.take_append_drop]
          rw [List.length_take, List.length_take]
          omega
      · have done : pos = size := by omega
        refine ⟨[], if_neg (by exact_mod_cast more), ?_⟩
        simp [done]

def ToClient.bytes : ToClient → Bytes
  | .upstream bytes => bytes
  | .forbidden response => response

def Exchange.relayed (segments : List (Segment maxBytes)) (ending : Ending) : Exchange maxBytes :=
  { Exchange.undisturbed segments with ending }

theorem stored_of_relayed {f : ContentFilter} {segments : List (Segment maxBytes)}
    {ending : Ending} {data : Bytes} {size : Int}
    (small : (segments.flatMap (·.bytes)).length < 2 ^ 31)
    (stored : (handleRequest f (.relayed segments ending)).stored = some (data, size)) :
    data = segments.flatMap (·.bytes) ∧ size = data.length ∧
      (handleRequest f (.relayed segments ending)).toClient.flatMap ToClient.bytes = data := by
  have intake : (Exchange.relayed segments ending).intake = segments.flatMap (·.bytes) :=
    undisturbed_intake segments
  cases blocked : contentBlocked f (Exchange.relayed segments ending).intake with
  | true =>
      obtain ⟨loop, pages, handled, -⟩ := handleRequest_blocked rfl blocked
      simp [handled] at stored
  | false =>
      obtain ⟨loop, handled, isLoop, exit, -⟩ := handleRequest_passed rfl blocked
      rw [handled, intake, Option.some.injEq, Prod.mk.injEq] at stored
      obtain ⟨rfl, rfl⟩ := stored
      have sent : loop.toClient = segments.map fun s => .upstream s.bytes := by
        rw [isLoop]
        apply toClient_passed
        rw [isLoop, Exchange.relayed, Exchange.undisturbed, firstFailure_passed] at exit
        rw [Exchange.relayed, Exchange.undisturbed, exit]
        simp
      refine ⟨rfl, toInt_length.mpr small, ?_⟩
      rw [handled, sent, List.flatMap_map]
      rfl

theorem entry_inMemory {c : Cache.AddCall} {path : Bytes} {file : Option Inode} {e : Entry}
    (made : c.entry path file = some e) (memory : e.isOnDisk = false) :
    e.data = .memory (c.data.take c.size.toNat ++ [0]) ∧ e.length = c.size := by
  cases file with
  | none =>
      simp only [Cache.AddCall.entry, Option.ite_none_right_eq_some, Option.some.injEq] at made
      simp [← made.2]
  | some file =>
      simp only [Cache.AddCall.entry, Option.some.injEq] at made
      simp [← made] at memory

theorem replay_memory {e : Entry} {data rest : Bytes} (payload : e.data = .memory (data ++ rest))
    (length : e.length = data.length) (disk : Disk) (positive : 0 < maxBytes) :
    ∃ pieces, e.replay maxBytes disk = some pieces ∧ pieces.flatten = data := by
  have inside : data.length ≤ (data ++ rest).length := by simp
  obtain ⟨pieces, ran, flat⟩ := replayLoop_flatten inside positive (Nat.zero_le _)
    (Nat.lt_succ_self (data.length - 0))
  refine ⟨pieces, ?_, by simpa using flat⟩
  rw [Entry.replay, payload, length]
  exact ran

/-- A hit sends what the client of the miss got, in the same order, whatever happens to the cache
in between. -/
theorem hit_replays_miss (f : ContentFilter) (positive : 0 < maxBytes)
    (segments : List (Segment maxBytes)) (ending : Ending)
    (small : (segments.flatMap (·.bytes)).length < 2 ^ 31) :
    let x := Exchange.relayed segments ending
    (∀ w ∈ x.responseWrites f, w.InBounds ∧ (w.capacity ≤ maxBytes ∨ w.capacity < 2 ^ 32)) ∧
      ∀ data size, (handleRequest f x).stored = some (data, size) →
      ∀ policy cacheDir disk before s,
        run Cache.step (Cache.cacheInit policy cacheDir disk) before = some s →
      ∀ (call : Cache.AddCall) t, s.addCache { call with data, size } = some (t, 1) →
        t.entry s.brk ≠ none ∧
        ∀ later u, run Cache.step t later = some u →
        ∀ now v e, u.findCache call.url now = some (v, some s.brk) → v.entry s.brk = some e →
          e.isOnDisk = false →
        ∀ pieceBytes, 0 < pieceBytes → ∃ pieces, e.replay pieceBytes v.disk = some pieces ∧
          pieces.flatten = (handleRequest f x).toClient.flatMap ToClient.bytes := by
  intro x
  refine ⟨?_, ?_⟩
  · intro w member
    refine ⟨responseWrites_inBounds f x.chunks positive le_rfl w member, ?_⟩
    refine responseWrites_capacity f x.chunks ?_ (Or.inl le_rfl) w member
    rw [List.length_nil, Nat.zero_add]
    exact (congrArg List.length (contents_passed segments)).trans_lt small
  · intro data size stored policy cacheDir disk before s ran call t added
    obtain ⟨rfl, length, relayed⟩ := stored_of_relayed small stored
    have refines := (Refines.init policy cacheDir disk).after_run ran
    obtain ⟨path, file, made, isMade, there, stays⟩ := refines.entry_of_added added
    refine ⟨by simp [there], ?_⟩
    intro later u reached now v e found held memory pieceBytes nonzero
    have looked : run Cache.step t (later ++ [.find call.url now]) = some v := by
      rw [run_concat _ reached, Cache.step, Cache.exec, found]
      rfl
    obtain ⟨-, onDisk, payload, size_eq, -⟩ := stays _ v looked e held
    obtain ⟨bytes, size_made⟩ := entry_inMemory isMade (onDisk ▸ memory)
    have block : e.data = .memory (segments.flatMap (·.bytes) ++ [0]) := by
      rw [payload, bytes, length]
      simp only [Int.toNat_natCast, List.take_length]
    rw [relayed]
    exact replay_memory block (by rw [size_eq, size_made, length]) v.disk nonzero

theorem hit_replays_miss_six :
    let data := ascii "abcdef"
    let segments : List (Segment 4) :=
      [⟨ascii "abcd", by decide, by decide⟩, ⟨ascii "ef", by decide, by decide⟩]
    let x := Exchange.relayed segments .closed
    let s := Cache.cacheInit .lru [] .empty
    ∃ t v e, s.addCache { sampleCall "u" "" with data, size := 6 } = some (t, 1) ∧
      t.findCache (ascii "u") 5 = some (v, some s.brk) ∧ v.entry s.brk = some e ∧
      ∃ pieces, e.replay 2 v.disk = some pieces ∧
        pieces.flatten = (handleRequest ⟨false, [], []⟩ x).toClient.flatMap ToClient.bytes := by
  intro data segments x s
  have hit : (do
      let (t, result) ← s.addCache { sampleCall "u" "" with data, size := 6 }
      let (v, a) ← t.findCache (ascii "u") 5
      let e ← v.entry s.brk
      some (result, a, e.isOnDisk)) = some (1, some s.brk, false) := by decide +kernel
  simp only [Option.bind_eq_bind, Option.bind_eq_some_iff, Option.some.injEq, Prod.mk.injEq,
    Prod.exists] at hit
  obtain ⟨t, result, added, v, a, found, e, held, rfl, rfl, memory⟩ := hit
  refine ⟨t, v, e, added, found, held, ?_⟩
  have both := hit_replays_miss ⟨false, [], []⟩ (by decide) segments .closed (by decide)
  exact (both.2 data 6 (by decide +kernel) .lru [] .empty [] s rfl (sampleCall "u" "") t added).2 []
    t rfl 5 v e found held memory 2 (by decide)

end ProxyServer
