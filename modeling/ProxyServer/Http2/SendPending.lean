import ProxyServer.CString
import Mathlib.Algebra.BigOperators.Group.List.Basic

/-!
# Sending what is pending

`http2_send_pending`. The output of the session is a queue of chunks; `nghttp2_session_mem_send`
takes the next one off it, and returns 0 when there is none.
-/

namespace ProxyServer.Http2

structure OutputChunk where
  bytes : Bytes
  nonempty : bytes ≠ []

/-- What `SSL_write` returns: all it was given, a negative number (with `SSL_ERROR_WANT_READ` or
`SSL_ERROR_WANT_WRITE`, or with any other error), or 0. -/
inductive SslWrite where
  | full
  | again
  | failed
  | closed
  deriving DecidableEq, Repr

def memSend : List OutputChunk → Option OutputChunk × List OutputChunk
  | [] => (none, [])
  | chunk :: pending => (some chunk, pending)

structure SendResult where
  ret : Int
  written : Bytes
  pending : List OutputChunk

/-- The loop, where `outcome 0` is the result of the next `SSL_write`. -/
def sendPending : Nat → (Nat → SslWrite) → List OutputChunk → Option SendResult
  | 0, _, _ => none
  | fuel + 1, outcome, pending =>
      match memSend pending with
      | (none, pending) => some ⟨0, [], pending⟩
      | (some data, pending) =>
          let later := fun i => outcome (i + 1)
          match outcome 0 with
          | .again => sendPending fuel later pending
          | .failed => some ⟨-1, [], pending⟩
          | .full =>
              (sendPending fuel later (memSend pending).2).map fun result =>
                { result with written := data.bytes ++ result.written }
          -- `sent < 0` is all that is asked.
          | .closed => sendPending fuel later (memSend pending).2

def http2SendPending (outcome : Nat → SslWrite) (pending : List OutputChunk) : Option SendResult :=
  sendPending (pending.length + 1) outcome pending

def output (pending : List OutputChunk) : Bytes := pending.flatMap (·.bytes)

def Delivers (pending : List OutputChunk) (result : SendResult) : Prop :=
  result.ret = 0 → result.written = output pending

def SslWrite.fetches : SslWrite → Nat
  | .again | .failed => 1
  | .full | .closed => 2

def FailsAt (outcome : Nat → SslWrite) (pending : List OutputChunk) (k : Nat) : Prop :=
  outcome k = .failed ∧ ((List.range k).map fun i => (outcome i).fetches).sum < pending.length

variable {outcome : Nat → SslWrite} {pending : List OutputChunk}

theorem failsAt_zero {chunk : OutputChunk} :
    FailsAt outcome (chunk :: pending) 0 ↔ outcome 0 = .failed := by
  simp [FailsAt]

theorem failsAt_succ {k : Nat} :
    FailsAt outcome pending (k + 1) ↔
      FailsAt (fun i => outcome (i + 1)) (pending.drop (outcome 0).fetches) k := by
  have sum : ((List.range (k + 1)).map fun i => (outcome i).fetches).sum =
      (outcome 0).fetches + ((List.range k).map fun i => (outcome (i + 1)).fetches).sum := by
    rw [List.range_succ_eq_map, List.map_cons, List.sum_cons, List.map_map]
    rfl
  rw [FailsAt, FailsAt, sum, List.length_drop]
  refine and_congr_right fun _ => ?_
  omega

theorem exists_failsAt {chunk : OutputChunk} (alive : outcome 0 ≠ .failed) :
    (∃ k, FailsAt outcome (chunk :: pending) k) ↔ ∃ k, FailsAt (fun i => outcome (i + 1))
      ((chunk :: pending).drop (outcome 0).fetches) k := by
  constructor
  · intro given
    obtain ⟨k, fails⟩ := given
    cases k with
    | zero => exact absurd (failsAt_zero.mp fails) alive
    | succ k => exact ⟨k, failsAt_succ.mp fails⟩
  · intro given
    obtain ⟨k, fails⟩ := given
    exact ⟨k + 1, failsAt_succ.mpr fails⟩

theorem memSend_rest (pending : List OutputChunk) : (memSend pending).2 = pending.drop 1 := by
  cases pending <;> rfl

theorem output_drop_le (pending : List OutputChunk) (n : Nat) :
    (output (pending.drop n)).length ≤ (output pending).length := by
  have split : output pending = output (pending.take n) ++ output (pending.drop n) := by
    rw [output, output, output, ← List.flatMap_append, List.take_append_drop]
  rw [split, List.length_append]
  omega

theorem sendPending_cons (fuel : Nat) (outcome : Nat → SslWrite) (chunk : OutputChunk)
    (rest : List OutputChunk) :
    sendPending (fuel + 1) outcome (chunk :: rest) =
      match outcome 0 with
      | .again => sendPending fuel (fun i => outcome (i + 1)) rest
      | .failed => some ⟨-1, [], rest⟩
      | .full => (sendPending fuel (fun i => outcome (i + 1)) (rest.drop 1)).map fun result =>
          { result with written := chunk.bytes ++ result.written }
      | .closed => sendPending fuel (fun i => outcome (i + 1)) (rest.drop 1) := by
  rw [← memSend_rest]
  rfl

theorem sendPending_spec {fuel : Nat} (enough : pending.length < fuel) :
    ∃ result, sendPending fuel outcome pending = some result ∧
      (result.ret = 0 ↔ ¬ ∃ k, FailsAt outcome pending k) ∧
      result.written.length ≤ (output pending).length := by
  induction fuel generalizing outcome pending with
  | zero => omega
  | succ fuel ih =>
      cases pending with
      | nil => exact ⟨⟨0, [], []⟩, rfl, by simp [FailsAt], le_rfl⟩
      | cons chunk rest =>
          rw [List.length_cons] at enough
          have next (n : Nat) := @ih (fun i => outcome (i + 1)) (rest.drop n)
            (by rw [List.length_drop]; omega)
          have total : (output (chunk :: rest)).length =
              chunk.bytes.length + (output rest).length := List.length_append
          rw [sendPending_cons]
          cases first : outcome 0 with
          | again =>
              obtain ⟨result, ran, ret, written⟩ := next 0
              refine ⟨result, ran, ?_, written.trans (by rw [List.drop_zero, total]; omega)⟩
              rw [ret, exists_failsAt (by simp [first]), first]
              rfl
          | failed =>
              refine ⟨_, rfl, ?_, Nat.zero_le _⟩
              simpa using ⟨0, failsAt_zero.mpr first⟩
          | full =>
              obtain ⟨result, ran, ret, written⟩ := next 1
              refine ⟨_, by rw [ran]; rfl, ?_, ?_⟩
              · rw [exists_failsAt (by simp [first]), first]
                exact ret
              · have fewer := output_drop_le rest 1
                rw [List.length_append, total]
                omega
          | closed =>
              obtain ⟨result, ran, ret, written⟩ := next 1
              refine ⟨result, ran, ?_, ?_⟩
              · rw [ret, exists_failsAt (by simp [first]), first]
                rfl
              · have fewer := output_drop_le rest 1
                omega

theorem written_le {fuel : Nat} {result : SendResult} (enough : pending.length < fuel)
    (ran : sendPending fuel outcome pending = some result) :
    result.written.length ≤ (output pending).length := by
  obtain ⟨same, ran', -, written⟩ := @sendPending_spec outcome _ _ enough
  rw [ran, Option.some.injEq] at ran'
  rwa [ran']

theorem written_eq_iff {chunk : OutputChunk} {rest : List OutputChunk} {fuel : Nat}
    {result : SendResult} (enough : rest.length < fuel) (alive : outcome 0 ≠ .failed)
    (ran : sendPending (fuel + 1) outcome (chunk :: rest) = some result) :
    result.written = output (chunk :: rest) ↔ rest = [] ∧ outcome 0 = .full := by
  have content := List.length_pos_of_ne_nil chunk.nonempty
  have total : (output (chunk :: rest)).length = chunk.bytes.length + (output rest).length :=
    List.length_append
  have shorter : (rest.drop 1).length < fuel := by
    rw [List.length_drop]
    omega
  have fewer := output_drop_le rest 1
  have short : result.written.length < (output (chunk :: rest)).length →
      result.written ≠ output (chunk :: rest) := fun less same => by simp [same] at less
  rw [sendPending_cons] at ran
  cases first : outcome 0 with
  | again =>
      rw [first] at ran
      have bound := written_le enough ran
      simpa using short (by omega)
  | failed => exact absurd first alive
  | closed =>
      rw [first] at ran
      have bound := written_le shorter ran
      simpa using short (by omega)
  | full =>
      rw [first] at ran
      obtain ⟨later, sentLater, rfl⟩ := Option.map_eq_some_iff.mp ran
      have bound := written_le shorter sentLater
      have split : output (chunk :: rest) = chunk.bytes ++ output rest := rfl
      simp only [split, List.append_cancel_left_eq, and_true]
      cases rest with
      | nil => simpa [output] using bound
      | cons dropped rest =>
          have lost := List.length_pos_of_ne_nil dropped.nonempty
          have next : (output (dropped :: rest)).length =
              dropped.bytes.length + (output rest).length := List.length_append
          simp only [reduceCtorEq, iff_false]
          intro same
          rw [same, List.drop_one, List.tail_cons] at bound
          omega

/-- What is sent is all there is exactly if nothing is pending, one chunk is and is taken at once, or
a write fails before the chunks run out. -/
theorem delivers_iff (outcome : Nat → SslWrite) (pending : List OutputChunk) :
    ∃ result, http2SendPending outcome pending = some result ∧
      (Delivers pending result ↔
        pending = [] ∨ (pending.length = 1 ∧ outcome 0 = .full) ∨
          ∃ k, FailsAt outcome pending k) := by
  obtain ⟨result, ran, ret, -⟩ :=
    @sendPending_spec outcome _ _ (Nat.lt_succ_self pending.length)
  refine ⟨result, ran, ?_⟩
  by_cases fails : ∃ k, FailsAt outcome pending k
  · simp [Delivers, ret, fails]
  · cases pending with
    | nil =>
        cases ran
        simp [Delivers, output]
    | cons chunk rest =>
        have alive : outcome 0 ≠ .failed := fun first => fails ⟨0, failsAt_zero.mpr first⟩
        have written := written_eq_iff (Nat.lt_succ_self _) alive ran
        simp [Delivers, ret, fails, written]

def twoFrames : List OutputChunk := [⟨ascii "AB", by decide⟩, ⟨ascii "CD", by decide⟩]

theorem twoFrames_lost :
    http2SendPending (fun _ => .full) twoFrames = some ⟨0, ascii "AB", []⟩ ∧
      ¬ Delivers twoFrames ⟨0, ascii "AB", []⟩ := by
  refine ⟨rfl, ?_⟩
  intro delivers
  exact absurd (delivers rfl) (by decide)

end ProxyServer.Http2
