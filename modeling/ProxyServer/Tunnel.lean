import ProxyServer.Lib.Run
import ProxyServer.Request.HandleRequest

/-!
# The relay loop of a tunnel

`HandleConnect` after both handshakes. Each result of `poll`, `SSL_pending`, `SSL_read` and
`SSL_write` is an input of one step; both sockets are non-blocking.
-/

namespace ProxyServer
open Lib

inductive Side where
  | client
  | server
  deriving DecidableEq, Repr

/-- `again` is `SSL_ERROR_WANT_READ` or `SSL_ERROR_WANT_WRITE`; to have `failed` is to report any
other error, or the end of the stream. -/
inductive ReadResult where
  | data (piece : Segment 16384)
  | again
  | failed

inductive WriteResult where
  | whole
  | again
  | failed
  deriving DecidableEq, Repr

structure Revents where
  input : Side → Bool
  hangup : Side → Bool

inductive Outcome where
  | poll (revents : Option Revents)
  | pending (some : Bool)
  | read (result : ReadResult)
  | write (result : WriteResult)

def Outcome.fatal : Outcome → Prop
  | .read .failed => True
  | .write .failed => True
  | _ => False

inductive RelayPhase where
  | polling
  | asking (source : Side)
  | reading (source : Side)
  | writing (source : Side) (bytes : Nat)
  | ended
  deriving DecidableEq, Repr

/-- `received` is what `SSL_read` returned on a side, `sent` what of it `SSL_write` took on the
other. -/
structure Relay where
  phase : RelayPhase
  active : Bool
  revents : Revents
  buf : Bytes
  received : Side → Bytes
  sent : Side → Bytes

namespace Relay

def start (buf : Bytes) : Relay where
  phase := .polling
  active := true
  revents := ⟨fun _ => false, fun _ => false⟩
  buf
  received _ := []
  sent _ := []

/-- `SSL_pending` is asked only when `poll` reported no input. -/
def turn (s : Relay) (source : Side) : Relay :=
  { s with phase := if s.revents.input source then .reading source else .asking source }

def finish (s : Relay) : Relay :=
  let hangup := s.revents.hangup .client || s.revents.hangup .server
  { s with phase := if hangup || !s.active then .ended else .polling }

def leave (s : Relay) : Side → Relay
  | .client => s.turn .server
  | .server => s.finish

def stop (s : Relay) : Relay := { s with active := false }

def step (s : Relay) (o : Outcome) : Option Relay :=
  match s.phase, o with
  | .polling, .poll none => some { s with phase := .ended }
  | .polling, .poll (some revents) => some ({ s with revents }.turn .client)
  | .asking source, .pending true => some { s with phase := .reading source }
  | .asking source, .pending false => some (s.leave source)
  | .reading source, .read (.data piece) =>
      some { s with
        phase := .writing source piece.bytes.length
        buf := piece.bytes ++ s.buf.drop piece.bytes.length
        received := Function.update s.received source (s.received source ++ piece.bytes) }
  | .reading source, .read .again => some (s.leave source)
  | .reading source, .read .failed => some (s.stop.leave source)
  | .writing source bytes, .write .whole =>
      some { s with
        phase := .reading source
        sent := Function.update s.sent source (s.sent source ++ s.buf.take bytes) }
  -- `SSL_get_error` is not asked: `wbytes <= 0` is the end, whatever the reason.
  | .writing source _, .write .again => some (s.stop.leave source)
  | .writing source _, .write .failed => some (s.stop.leave source)
  | _, _ => none

def inFlight (s : Relay) (side : Side) : Bytes :=
  match s.phase with
  | .writing source bytes => if side = source then s.buf.take bytes else []
  | _ => []

def Intact (s : Relay) : Prop := ∀ side, s.received side = s.sent side ++ s.inFlight side

/-- Bytes are lost only after a fatal error or the end of a stream, and a write that is to be
retried keeps its bytes and the tunnel. -/
structure Lossless (buf : Bytes) (os : List Outcome) : Prop where
  delivered : ∀ past s, past <+: os → run step (start buf) past = some s →
    (∃ o ∈ past, o.fatal) ∨ s.Intact
  retried : ∀ past s t, past ++ [.write .again] <+: os → run step (start buf) past = some s →
    s.step (.write .again) = some t →
    t.inFlight = s.inFlight ∧ t.active = s.active ∧ t.phase ≠ .ended

variable {s t : Relay} {o : Outcome}

def Idle (s : Relay) : Prop := ∀ source bytes, s.phase ≠ .writing source bytes

theorem Idle.inFlight (idle : s.Idle) : s.inFlight = fun _ => [] := by
  unfold Relay.inFlight
  cases phase : s.phase with
  | writing source bytes => exact absurd phase (idle source bytes)
  | _ => rfl

theorem turn_idle (s : Relay) (source : Side) : (s.turn source).Idle := by
  intro other bytes phase
  simp only [turn] at phase
  split at phase <;> cases phase

theorem finish_idle (s : Relay) : s.finish.Idle := by
  intro other bytes phase
  simp only [finish] at phase
  split at phase <;> cases phase

theorem leave_idle (s : Relay) : ∀ source, (s.leave source).Idle
  | .client => s.turn_idle .server
  | .server => s.finish_idle

theorem leave_frame (s : Relay) (source : Side) :
    (s.leave source).received = s.received ∧ (s.leave source).sent = s.sent := by
  cases source <;> exact ⟨rfl, rfl⟩

theorem step_cases (taken : s.step o = some t) :
    (s.Idle ∧ t.Idle ∧ (∀ r, o ≠ .write r) ∧ t.received = s.received ∧ t.sent = s.sent) ∨
    (∃ source piece, s.Idle ∧ o = .read (.data piece) ∧ t = { s with
      phase := .writing source piece.bytes.length
      buf := piece.bytes ++ s.buf.drop piece.bytes.length
      received := Function.update s.received source (s.received source ++ piece.bytes) }) ∨
    (∃ source bytes, s.phase = .writing source bytes ∧ o = .write .whole ∧ t = { s with
      phase := .reading source
      sent := Function.update s.sent source (s.sent source ++ s.buf.take bytes) }) ∨
    ∃ source bytes, s.phase = .writing source bytes ∧ (o = .write .again ∨ o = .write .failed) ∧
      t = s.stop.leave source := by
  unfold step at taken
  split at taken <;> cases taken
  case h_1 phase => exact Or.inl ⟨by simp [Idle, phase], by simp [Idle], by simp, rfl, rfl⟩
  case h_2 revents phase =>
    exact Or.inl ⟨by simp [Idle, phase], turn_idle _ _, by simp, rfl, rfl⟩
  case h_3 source phase => exact Or.inl ⟨by simp [Idle, phase], by simp [Idle], by simp, rfl, rfl⟩
  case h_4 source phase =>
    exact Or.inl ⟨by simp [Idle, phase], leave_idle _ _, by simp, leave_frame _ _⟩
  case h_5 source piece phase =>
    exact Or.inr (Or.inl ⟨source, piece, by simp [Idle, phase], rfl, rfl⟩)
  case h_6 source phase =>
    exact Or.inl ⟨by simp [Idle, phase], leave_idle _ _, by simp, leave_frame _ _⟩
  case h_7 source phase =>
    exact Or.inl ⟨by simp [Idle, phase], leave_idle _ _, by simp, leave_frame _ _⟩
  case h_8 source bytes phase => exact Or.inr (Or.inr (Or.inl ⟨source, bytes, phase, rfl, rfl⟩))
  case h_9 source bytes phase =>
    exact Or.inr (Or.inr (Or.inr ⟨source, bytes, phase, Or.inl rfl, rfl⟩))
  case h_10 source bytes phase =>
    exact Or.inr (Or.inr (Or.inr ⟨source, bytes, phase, Or.inr rfl, rfl⟩))

def Loaded (s : Relay) : Prop :=
  ∀ source bytes, s.phase = .writing source bytes → 0 < bytes ∧ bytes ≤ s.buf.length

theorem Idle.loaded (idle : s.Idle) : s.Loaded :=
  fun source bytes phase => absurd phase (idle source bytes)

theorem step_loaded (taken : s.step o = some t) : t.Loaded := by
  rcases step_cases taken with ⟨-, idle, -⟩ | ⟨source, piece, -, -, rfl⟩ |
    ⟨source, bytes, -, -, rfl⟩ | ⟨source, bytes, -, -, rfl⟩
  · exact idle.loaded
  · rintro _ _ ⟨⟩
    exact ⟨List.length_pos_of_ne_nil piece.nonempty, by simp⟩
  · rintro _ _ ⟨⟩
  · exact (leave_idle _ _).loaded

theorem step_intact (intact : s.Intact) (taken : s.step o = some t) (lively : o ≠ .write .again)
    (healthy : ¬ o.fatal) : t.Intact := by
  rcases step_cases taken with ⟨before, idle, -, received, sent⟩ | ⟨source, piece, idle, -, rfl⟩ |
    ⟨source, bytes, phase, -, rfl⟩ | ⟨source, bytes, -, rfl | rfl, -⟩
  · intro side
    rw [received, sent, idle.inFlight, intact side, before.inFlight]
  · intro side
    have settled : s.received side = s.sent side := by simpa [idle.inFlight] using intact side
    by_cases here : side = source
    · subst here
      simp [inFlight, settled]
    · simp [inFlight, settled, here]
  · intro side
    have loaded := intact side
    by_cases here : side = source
    · subst here
      simpa [inFlight, phase] using loaded
    · simpa [inFlight, phase, here] using loaded
  · exact absurd rfl lively
  · exact absurd trivial healthy

theorem step_again (loaded : s.Loaded) (taken : s.step (.write .again) = some t) :
    t.inFlight ≠ s.inFlight := by
  rcases step_cases taken with ⟨-, -, other, -⟩ | ⟨source, piece, -, same, -⟩ |
    ⟨source, bytes, -, same, -⟩ | ⟨source, bytes, phase, -, rfl⟩
  · exact absurd rfl (other _)
  · cases same
  · cases same
  · obtain ⟨positive, inside⟩ := loaded source bytes phase
    rw [(leave_idle _ _).inFlight]
    intro same
    have gone : 0 = (s.buf.take bytes).length := by
      simpa [inFlight, phase] using congrArg List.length (congrFun same source)
    rw [List.length_take] at gone
    omega

theorem run_loaded {buf : Bytes} {os : List Outcome} (ran : run step (start buf) os = some s) :
    s.Loaded := by
  refine run_invariant step (fun _ _ _ _ taken => step_loaded taken) ?_ ran
  rintro _ _ ⟨⟩

theorem run_intact {buf : Bytes} {os : List Outcome} (ran : run step (start buf) os = some s)
    (lively : Outcome.write .again ∉ os) : (∃ o ∈ os, o.fatal) ∨ s.Intact := by
  induction os using List.reverseRecOn generalizing s with
  | nil =>
      cases ran
      exact Or.inr fun _ => rfl
  | append_singleton os o ih =>
      obtain ⟨r, before, -⟩ := Option.bind_eq_some_iff.mp ((run_append ..).symm.trans ran)
      have taken : r.step o = some s := (run_concat step before o).symm.trans ran
      simp only [List.mem_append, List.mem_singleton, not_or] at lively
      rcases ih before lively.1 with ⟨o', member, fatal⟩ | intact
      · exact Or.inl ⟨o', by simp [member], fatal⟩
      · by_cases fatal : o.fatal
        · exact Or.inl ⟨o, by simp, fatal⟩
        · exact Or.inr (step_intact intact taken (Ne.symm lively.2) fatal)

/-- Whatever the sockets do, the loop loses nothing exactly if no write is to be retried. -/
theorem lossless_iff_no_retry {buf : Bytes} {os : List Outcome}
    (ran : run step (start buf) os = some s) : Lossless buf os ↔ Outcome.write .again ∉ os := by
  constructor
  · intro lossless member
    obtain ⟨past, future, rfl⟩ := List.append_of_mem member
    rw [run_append] at ran
    obtain ⟨r, before, after⟩ := Option.bind_eq_some_iff.mp ran
    obtain ⟨t, taken, -⟩ := Option.bind_eq_some_iff.mp after
    obtain ⟨kept, -⟩ := lossless.retried past r t (by simp) before taken
    exact step_again (run_loaded before) taken kept
  · intro lively
    refine ⟨?_, ?_⟩
    · intro past r before ran
      exact run_intact ran fun member => lively (before.subset member)
    · intro past r t before
      exact absurd (before.subset (by simp)) lively

theorem lossless_of_whole_write :
    Lossless [] [.poll (some ⟨fun side => side = .client, fun _ => false⟩),
      .read (.data ⟨ascii "hi", by decide, by decide⟩), .write .whole, .read .again,
      .pending false] :=
  (lossless_iff_no_retry rfl).mpr (by simp)

def stalled : List Outcome :=
  [.poll (some ⟨fun side => side = .client, fun _ => false⟩),
    .read (.data ⟨ascii "hi", by decide, by decide⟩), .write .again, .pending false]

theorem stalled_loses : ∃ s, run step (start []) stalled = some s ∧ s.phase = .ended ∧
    s.received .client = ascii "hi" ∧ s.sent .client = [] ∧ ¬ Lossless [] stalled := by
  refine ⟨_, rfl, rfl, rfl, rfl, ?_⟩
  intro lossless
  rcases lossless.delivered stalled _ (List.prefix_refl _) rfl with ⟨o, member, fatal⟩ | intact
  · simp only [stalled, List.mem_cons, List.not_mem_nil, or_false] at member
    rcases member with rfl | rfl | rfl | rfl <;> exact fatal
  · exact absurd (intact .client) (by decide)

end Relay
end ProxyServer
