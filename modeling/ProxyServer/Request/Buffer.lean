import ProxyServer.Lib.Block
import ProxyServer.Request.Mediation

/-!
# The request buffer

`BUFFER` is a block of `max_bytes` bytes that `recv` fills from the front. A run is given by what
its calls of `recv` return.
-/

namespace ProxyServer
open Lib Lib.Block

abbrev Recv := Option Bytes

def bytesOf (results : List Recv) : Bytes := (results.filterMap id).flatten

def WantsMore (maxBytes : Nat) (buffer : Bytes) (bufLen : Nat) : Prop :=
  bufLen < maxBytes ∧ memmem (buffer.take bufLen) (ascii "\r\n\r\n") = none

instance (maxBytes : Nat) (buffer : Bytes) (bufLen : Nat) :
    Decidable (WantsMore maxBytes buffer bufLen) :=
  inferInstanceAs (Decidable (_ ∧ _))

/-- The loop, and what is in `BUFFER` and in `buf_len` after it. There is nothing if the calls that
it makes do not return `results`. -/
def receiveMore (maxBytes : Nat) (buffer : Bytes) (bufLen : Nat) :
    List Recv → Block.Checked (Option (Bytes × Nat))
  | [] => return if WantsMore maxBytes buffer bufLen then none else some (buffer, bufLen)
  | none :: results =>
      return if WantsMore maxBytes buffer bufLen ∧ results = [] then some (buffer, bufLen) else none
  | some bytes :: results => do
      if WantsMore maxBytes buffer bufLen ∧ bytes ≠ [] ∧ bytes.length ≤ maxBytes - bufLen then
        let buffer ← writeAt buffer bufLen bytes
        receiveMore maxBytes buffer (bufLen + bytes.length) results
      else
        return none

def receiveBuffer (maxBytes : Nat) : List Recv → Block.Checked (Option (Bytes × Nat))
  | some bytes :: results => do
      if bytes ≠ [] ∧ bytes.length ≤ maxBytes then
        let buffer ← writeAt (List.replicate maxBytes 0) 0 bytes
        if rejected (buffer.take bytes.length) then
          return none
        receiveMore maxBytes buffer bytes.length results
      else
        return none
  | _ => return none

/-- The blocks that `strlen` is called on: `BUFFER` for the parser, and for `LENGTH` where the
request is not in the cache. -/
def strlenBlocks (maxBytes : Nat) (results : List Recv) (malloc miss : Bool) :
    Block.Checked (List Bytes) := do
  match ← receiveBuffer maxBytes results with
  | none => return []
  | some (buffer, bufLen) =>
      let bytesReceived := toInt bufLen
      if malloc = false then
        return []
      let _ ← copyAt buffer 0 (toSize bytesReceived)
      if bytesReceived ≤ 0 then
        return []
      return buffer :: if miss then [buffer] else []

def padded (size : Nat) (bytes : Bytes) : Bytes := bytes ++ List.replicate (size - bytes.length) 0

variable {maxBytes : Nat} {received : Bytes} {results : List Recv}

theorem length_padded (inside : received.length ≤ maxBytes) :
    (padded maxBytes received).length = maxBytes := by
  rw [padded, List.length_append, List.length_replicate]
  omega

theorem zero_mem_padded (inside : received.length ≤ maxBytes) :
    0 ∈ padded maxBytes received ↔ received.length < maxBytes ∨ 0 ∈ received := by
  rw [padded, List.mem_append, List.mem_replicate]
  constructor
  · rintro (zero | ⟨room, -⟩)
    · exact .inr zero
    · exact .inl (by omega)
  · rintro (room | zero)
    · exact .inr ⟨by omega, rfl⟩
    · exact .inl zero

theorem writeAt_padded {bytes : Bytes} (fits : (received ++ bytes).length ≤ maxBytes) :
    writeAt (padded maxBytes received) received.length bytes =
      .ok (padded maxBytes (received ++ bytes)) := by
  rw [List.length_append] at fits
  rw [writeAt_ok (by rw [length_padded (by omega)]; omega), padded, padded, List.take_left,
    List.drop_length_add_append, List.drop_replicate, List.length_append, Nat.sub_sub]

theorem writeAt_empty {bytes : Bytes} (fits : bytes.length ≤ maxBytes) :
    writeAt (List.replicate maxBytes 0) 0 bytes = .ok (padded maxBytes bytes) := by
  have empty : List.replicate maxBytes 0 = padded maxBytes [] := rfl
  have written := @writeAt_padded maxBytes [] bytes fits
  rwa [List.length_nil, ← empty] at written

theorem take_padded : (padded maxBytes received).take received.length = received :=
  List.take_left

def Filled (maxBytes : Nat) (bytes : Bytes) (state : Bytes × Nat) : Prop :=
  bytes.length ≤ maxBytes ∧ state = (padded maxBytes bytes, bytes.length)

theorem receiveMore_some {bytes : Bytes}
    (wants : WantsMore maxBytes (padded maxBytes received) received.length) (given : bytes ≠ [])
    (fits : bytes.length ≤ maxBytes - received.length) :
    receiveMore maxBytes (padded maxBytes received) received.length (some bytes :: results) =
      receiveMore maxBytes (padded maxBytes (received ++ bytes)) (received ++ bytes).length
        results := by
  have room : (received ++ bytes).length ≤ maxBytes := by
    have short := wants.1
    rw [List.length_append]
    omega
  rw [receiveMore, if_pos ⟨wants, given, fits⟩, writeAt_padded room, ok_bind, List.length_append]

theorem receiveMore_spec (inside : received.length ≤ maxBytes) :
    ∃ outcome, receiveMore maxBytes (padded maxBytes received) received.length results =
        .ok outcome ∧
      ∀ state ∈ outcome, Filled maxBytes (received ++ bytesOf results) state := by
  induction results generalizing received with
  | nil =>
      refine ⟨_, rfl, fun state stopped => ?_⟩
      split at stopped
      · cases stopped
      · obtain rfl := Option.some.inj stopped
        have none : received ++ bytesOf [] = received := List.append_nil received
        rw [none]
        exact ⟨inside, rfl⟩
  | cons result results ih =>
      cases result with
      | none =>
          refine ⟨_, rfl, fun state stopped => ?_⟩
          split at stopped
          · rename_i last
            obtain rfl := Option.some.inj stopped
            have none : received ++ bytesOf [none] = received := List.append_nil received
            rw [last.2, none]
            exact ⟨inside, rfl⟩
          · cases stopped
      | some bytes =>
          by_cases round : WantsMore maxBytes (padded maxBytes received) received.length ∧
              bytes ≠ [] ∧ bytes.length ≤ maxBytes - received.length
          · obtain ⟨wants, given, fits⟩ := round
            have room : (received ++ bytes).length ≤ maxBytes := by
              rw [List.length_append]
              omega
            have all : received ++ bytesOf (some bytes :: results) =
                received ++ bytes ++ bytesOf results := by
              simp [bytesOf]
            rw [receiveMore_some wants given fits, all]
            exact ih room
          · refine ⟨none, ?_, by simp⟩
            rw [receiveMore, if_neg round]
            rfl

theorem receiveBuffer_spec (maxBytes : Nat) (results : List Recv) :
    ∃ outcome, receiveBuffer maxBytes results = .ok outcome ∧
      ∀ state ∈ outcome, Filled maxBytes (bytesOf results) state := by
  cases results with
  | nil => exact ⟨none, rfl, by simp⟩
  | cons result results =>
      cases result with
      | none => exact ⟨none, rfl, by simp⟩
      | some bytes =>
          by_cases first : bytes ≠ [] ∧ bytes.length ≤ maxBytes
          · rw [receiveBuffer, if_pos first, writeAt_empty first.2, ok_bind, take_padded]
            by_cases refused : rejected bytes = true
            · exact ⟨none, if_pos refused, by simp⟩
            · rw [if_neg refused]
              exact receiveMore_spec first.2
          · refine ⟨none, ?_, by simp⟩
            rw [receiveBuffer, if_neg first]
            rfl

theorem strlenBlocks_padded {malloc miss : Bool} {blocks : List Bytes}
    (called : strlenBlocks maxBytes results malloc miss = .ok blocks) :
    ∀ block ∈ blocks, (bytesOf results).length ≤ maxBytes ∧
      block = padded maxBytes (bytesOf results) := by
  intro block member
  obtain ⟨outcome, read, filled⟩ := receiveBuffer_spec maxBytes results
  rw [strlenBlocks, read, ok_bind] at called
  cases outcome with
  | none =>
      obtain rfl := Except.ok.inj called
      cases member
  | some state =>
      obtain ⟨buffer, bufLen⟩ := state
      obtain ⟨inside, same⟩ := filled _ rfl
      obtain ⟨rfl, rfl⟩ := Prod.mk.inj same
      refine ⟨inside, ?_⟩
      simp only at called
      split at called
      · obtain rfl := Except.ok.inj called
        cases member
      · obtain ⟨copied, -, called⟩ := exists_of_bind called
        split at called
        · obtain rfl := Except.ok.inj called
          cases member
        · obtain rfl := Except.ok.inj called
          cases miss <;> simpa using member

/-- Where `strlen` is called, the buffer has a terminator if it is not full or a zero came; so a run
calls it on strings alone in these cases, and if it ends before. -/
theorem requestBuffer_terminated {malloc miss : Bool} {blocks : List Bytes}
    (called : strlenBlocks maxBytes results malloc miss = .ok blocks) :
    (∀ block ∈ blocks, block.length = maxBytes ∧
      (0 ∈ block ↔ (bytesOf results).length < maxBytes ∨ 0 ∈ bytesOf results)) ∧
    ((∀ block ∈ blocks, 0 ∈ block) ↔
      (bytesOf results).length < maxBytes ∨ 0 ∈ bytesOf results ∨ blocks = []) := by
  have each : ∀ block ∈ blocks, block.length = maxBytes ∧
      (0 ∈ block ↔ (bytesOf results).length < maxBytes ∨ 0 ∈ bytesOf results) := by
    intro block member
    obtain ⟨inside, rfl⟩ := strlenBlocks_padded called block member
    exact ⟨length_padded inside, zero_mem_padded inside⟩
  refine ⟨each, fun terminated => ?_, ?_⟩
  · cases blocks with
    | nil => exact .inr (.inr rfl)
    | cons block blocks =>
        rw [← or_assoc]
        exact .inl ((each block (by simp)).2.mp (terminated block (by simp)))
  · rintro (short | zero | rfl) block member
    · exact (each block member).2.mpr (.inl short)
    · exact (each block member).2.mpr (.inr zero)
    · cases member

theorem requestBuffer_terminated_short :
    let results : List Recv := [some (ascii "GET "), none]
    let block := ascii "GET " ++ [0, 0, 0, 0]
    strlenBlocks 8 results true true = .ok [block, block] ∧
      (∀ b ∈ [block, block], b.length = 8 ∧
        (0 ∈ b ↔ (bytesOf results).length < 8 ∨ 0 ∈ bytesOf results)) ∧
      ∀ b ∈ [block, block], 0 ∈ b := by
  intro results block
  have called : strlenBlocks 8 results true true = .ok [block, block] := by
    decide
  obtain ⟨each, whole⟩ := requestBuffer_terminated called
  exact ⟨called, each, whole.mpr (.inl (by decide))⟩

theorem requestBuffer_unterminated :
    ¬ ∀ (maxBytes : Nat) (results : List Recv) (malloc miss : Bool) (blocks : List Bytes),
      1 ≤ maxBytes → strlenBlocks maxBytes results malloc miss = .ok blocks →
        ∀ block ∈ blocks, 0 ∈ block := by
  intro all
  have called : strlenBlocks 16 [some (ascii "GET / HTTP/1.1\r\n")] true false =
      .ok [ascii "GET / HTTP/1.1\r\n"] := by
    decide
  have zero := all 16 _ true false _ (by decide) called _ (List.mem_singleton_self _)
  revert zero
  decide

theorem wantsMore_padded :
    WantsMore maxBytes (padded maxBytes received) received.length ↔
      received.length < maxBytes ∧ memmem received (ascii "\r\n\r\n") = none := by
  rw [WantsMore, take_padded]

theorem receiveMore_readHeaders {segments : List Bytes}
    (nonempty : ∀ segment ∈ segments, segment ≠ [])
    (short : (received ++ segments.flatten).length < maxBytes) :
    ∃ results, receiveMore maxBytes (padded maxBytes received) received.length results =
      .ok (some (padded maxBytes (readHeaders maxBytes received segments),
        (readHeaders maxBytes received segments).length)) := by
  induction segments generalizing received with
  | nil =>
      by_cases wants : WantsMore maxBytes (padded maxBytes received) received.length
      · exact ⟨[none], congrArg Except.ok (if_pos ⟨wants, rfl⟩)⟩
      · exact ⟨[], congrArg Except.ok (if_neg wants)⟩
  | cons segment segments ih =>
      obtain ⟨given, nonempty'⟩ := List.forall_mem_cons.mp nonempty
      rw [List.flatten_cons, ← List.append_assoc] at short
      rw [readHeaders]
      by_cases wants : WantsMore maxBytes (padded maxBytes received) received.length
      · obtain ⟨results, read⟩ := ih nonempty' short
        have fits : segment.length ≤ maxBytes - received.length := by
          rw [List.length_append, List.length_append] at short
          omega
        refine ⟨some segment :: results, ?_⟩
        rw [if_pos (wantsMore_padded.mp wants), receiveMore_some wants given fits]
        exact read
      · rw [if_neg (mt wantsMore_padded.mpr wants)]
        exact ⟨[], congrArg Except.ok (if_neg wants)⟩

theorem receiveBuffer_request {request : ClientRequest maxBytes}
    (read : receiveRequest maxBytes request.segments = some received) :
    ∃ results, receiveBuffer maxBytes results =
        .ok (some (padded maxBytes received, received.length)) ∧
      stringAt (padded maxBytes received) 0 = .ok (bufferString maxBytes received) := by
  have room := receiveRequest_short read
  have string : stringAt (padded maxBytes received) 0 = .ok (bufferString maxBytes received) :=
    if_pos ((zero_mem_padded room.le).mpr (.inl room))
  obtain ⟨segments, nonempty, short⟩ := request
  cases segments with
  | nil => cases read
  | cons first rest =>
      obtain ⟨given, nonempty'⟩ := List.forall_mem_cons.mp nonempty
      rw [receiveRequest] at read
      split at read
      · cases read
      · rename_i accepted
        obtain rfl := Option.some.inj read
        rw [List.flatten_cons] at short
        have fits : first.length ≤ maxBytes := by
          rw [List.length_append] at short
          omega
        obtain ⟨results, more⟩ := receiveMore_readHeaders nonempty' short
        refine ⟨some first :: results, ?_, string⟩
        rw [receiveBuffer, if_pos ⟨given, fits⟩, writeAt_empty fits, ok_bind, take_padded,
          if_neg accepted]
        exact more

end ProxyServer
