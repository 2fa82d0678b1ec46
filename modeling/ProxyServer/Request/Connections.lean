import ProxyServer.Lib.Interleave
import ProxyServer.Request.Routine

/-!
# Connections

`THREAD_ROUTINE` as what it does to the semaphore, the gauges and the client's socket, on each of
its paths, and any number of its threads side by side.
-/

namespace ProxyServer.Connections
open Lib

/-! ## One thread -/

inductive Op where
  | incrementRequests
  | incrementActive
  | incrementIpv6Active
  | incrementIpv6Requests
  | incrementHttp2Active
  | decrementActive
  | decrementIpv6Active
  | decrementHttp2Active
  | semWait
  | semPost
  | throwError (status : Nat)
  | accessLog (status : Nat)
  | destroyParsed
  | freeBuffer
  | freeRequest
  | shutdown
  | close
  deriving DecidableEq

/-- What `HandleConnect` comes to: an error, the two-way pipe, or an HTTP/2 session that is set up or
not. -/
inductive Tunnel where
  | failed
  | relayed
  | http2 (initialised : Bool)

/-- The client, and what the calls that the thread makes return; `first` is nothing when the first
`recv` returns no bytes. A peer that is gone does not come back. -/
structure Connection where
  inet6 : Bool
  peerAtStart : Bool
  peerAtEnd : Bool
  gone : peerAtEnd = true → peerAtStart = true
  first : Option Bytes
  later : List Bytes
  malloc : Bool
  parsed : Option ParsedRequest
  enableAuth : Bool
  authorized : Bool
  domainBlocked : Bool
  urlBlocked : Bool
  cached : Bool
  handled : Int
  tunnel : Tunnel

def handleHttp2Connection (initialised : Bool) : List Op :=
  .incrementHttp2Active :: if initialised then [.decrementHttp2Active] else []

def handleConnect : Tunnel → Int × List Op
  | .failed => (-1, [])
  | .relayed => (0, [])
  | .http2 initialised => (0, handleHttp2Connection initialised)

namespace Connection

variable (c : Connection)

def dispatch (p : ParsedRequest) : List Op :=
  if p.method = ascii "GET" then
    if p.host.isSome && p.path.isSome && checkHttpVersion p.version = 1 then
      if c.handled = -1 then [.throwError 500, .accessLog 500] else [.accessLog 200]
    else [.throwError 500, .accessLog 500]
  else if p.method = ascii "CONNECT" then
    let (ret, ops) := handleConnect c.tunnel
    ops ++ if ret = -1 then [.throwError 500, .accessLog 502] else [.accessLog 200]
  else [.throwError 501, .accessLog 501]

def refuse (status : Nat) : List Op :=
  [.throwError status, .accessLog status, .destroyParsed, .freeBuffer, .freeRequest, .close,
    .semPost]

def finish : List Op :=
  (if c.peerAtEnd && c.inet6 then [.decrementIpv6Active] else []) ++
    [.decrementActive, .shutdown, .close, .freeBuffer, .semPost, .freeRequest]

def answer (maxBytes : Nat) (received : Bytes) : List Op :=
  match c.parsed with
  | some p =>
      if c.enableAuth && !c.authorized then refuse 407
      else if p.host.isSome && c.domainBlocked then refuse 403
      else if p.path.isSome && c.urlBlocked then refuse 403
      else if c.cached then .accessLog 200 :: .destroyParsed :: c.finish
      else c.dispatch p ++ .destroyParsed :: c.finish
  | none =>
      if c.cached then .accessLog 200 :: .destroyParsed :: c.finish
      else if Thread.dropped maxBytes received then
        [.close, .freeBuffer, .freeRequest, .destroyParsed, .semPost]
      else .throwError 400 :: .accessLog 400 :: .destroyParsed :: c.finish

/-- From `sem_wait` on. What the first `recv` returns is not empty, so neither is the request. -/
def serve (maxBytes : Nat) : List Op :=
  match c.first with
  | none => [.close, .freeBuffer, .semPost]
  | some first =>
      if rejected first then [.accessLog 400, .close, .freeBuffer, .semPost]
      else if c.malloc = false then [.close, .freeBuffer, .semPost]
      else c.answer maxBytes (readHeaders maxBytes first c.later)

def threadRoutine (maxBytes : Nat) : List Op :=
  .incrementRequests :: .incrementActive ::
    ((if c.peerAtStart && c.inet6 then [.incrementIpv6Active, .incrementIpv6Requests] else []) ++
      .semWait :: c.serve maxBytes)

end Connection

/-! ## The threads together -/

structure Shared where
  semaphore : Nat
  active : Int
  ipv6Active : Int
  http2Active : Int
  deriving DecidableEq

/-- `metrics_decrement_*` leaves a gauge that is not positive alone. -/
def decrement (gauge : Int) : Int := if gauge > 0 then gauge - 1 else gauge

/-- A thread waits for the semaphore to be positive. -/
def exec : Op → Shared → Option Shared
  | .incrementActive, s => some { s with active := s.active + 1 }
  | .incrementIpv6Active, s => some { s with ipv6Active := s.ipv6Active + 1 }
  | .incrementHttp2Active, s => some { s with http2Active := s.http2Active + 1 }
  | .decrementActive, s => some { s with active := decrement s.active }
  | .decrementIpv6Active, s => some { s with ipv6Active := decrement s.ipv6Active }
  | .decrementHttp2Active, s => some { s with http2Active := decrement s.http2Active }
  | .semWait, s => if s.semaphore > 0 then some { s with semaphore := s.semaphore - 1 } else none
  | .semPost, s => some { s with semaphore := s.semaphore + 1 }
  | _, s => some s

def serveAll {count : Nat} (maxBytes : Nat) (connections : Fin count → Connection) (s : Shared)
    (schedule : List (Fin count)) : Option (Threads (Fin count) Op Shared) :=
  run (Threads.step exec) (Threads.start s fun i => (connections i).threadRoutine maxBytes) schedule

/-! ## The semaphore -/

def isLimit (op : Op) : Bool := op = .semWait || op = .semPost || op = .close

theorem Connection.limit_finish (c : Connection) :
    c.finish.filter isLimit = [.close, .semPost] := by
  rw [finish, List.filter_append]
  split <;> rfl

theorem Connection.limit_dispatch (c : Connection) (p : ParsedRequest) :
    (c.dispatch p).filter isLimit = [] := by
  rw [dispatch]
  split
  · split
    · split <;> rfl
    · rfl
  · split
    · cases c.tunnel with
      | failed => rfl
      | relayed => rfl
      | http2 initialised => cases initialised <;> rfl
    · rfl

theorem Connection.limit_answer (c : Connection) (maxBytes : Nat) (received : Bytes) :
    (c.answer maxBytes received).filter isLimit = [.close, .semPost] := by
  rw [answer]
  split
  · split
    · rfl
    · split
      · rfl
      · split
        · rfl
        · split
          · exact c.limit_finish
          · rename_i p _ _ _ _ _
            rw [List.filter_append, c.limit_dispatch]
            exact c.limit_finish
  · split
    · exact c.limit_finish
    · split
      · rfl
      · exact c.limit_finish

theorem Connection.limit_threadRoutine (c : Connection) (maxBytes : Nat) :
    (c.threadRoutine maxBytes).filter isLimit = [.semWait, .close, .semPost] := by
  have served : (c.serve maxBytes).filter isLimit = [.close, .semPost] := by
    rw [serve]
    split
    · rfl
    · split
      · rfl
      · split
        · rfl
        · exact c.limit_answer maxBytes _
  have counted : (if c.peerAtStart && c.inet6 then [Op.incrementIpv6Active, .incrementIpv6Requests]
      else []).filter isLimit = [] := by
    split <;> rfl
  rw [threadRoutine]
  simp only [List.filter_cons, List.filter_append, counted, served]
  rfl

def Inside (past : List Op) : Prop := .semWait ∈ past ∧ .semPost ∉ past

instance (past : List Op) : Decidable (Inside past) := inferInstanceAs (Decidable (_ ∧ _))

def inside {count : Nat} (t : Threads (Fin count) Op Shared) : Finset (Fin count) :=
  Finset.univ.filter fun i => Inside (t.past i)

def permit : Op → ℤ
  | .semWait => -1
  | .semPost => 1
  | _ => 0

theorem exec_permit {op : Op} {s s' : Shared} (carried : exec op s = some s') :
    (s'.semaphore : ℤ) = s.semaphore + permit op := by
  cases op <;> simp only [exec, Option.some.injEq] at carried
  case semWait =>
    split at carried
    · rename_i positive
      rw [← Option.some.inj carried, permit]
      change ((s.semaphore - 1 : Nat) : ℤ) = _
      omega
    · simp at carried
  all_goals simp [← carried, permit]

theorem limit_past {c : Connection} {maxBytes : Nat} {past : List Op}
    (isPrefix : past <+: c.threadRoutine maxBytes) :
    past.filter isLimit ∈
      [[], [.semWait], [.semWait, .close], [.semWait, .close, .semPost]] := by
  have filtered := isPrefix.filter isLimit
  rw [c.limit_threadRoutine, ← List.mem_inits] at filtered
  simpa using filtered

theorem permit_past {c : Connection} {maxBytes : Nat} {past : List Op}
    (isPrefix : past <+: c.threadRoutine maxBytes) :
    (past.map permit).sum = if Inside past then -1 else 0 := by
  have zero : ∀ op, isLimit op = false → permit op = 0 := by
    intro op other
    cases op <;> first | rfl | simp [isLimit] at other
  have same (op : Op) (limit : isLimit op = true) : op ∈ past ↔ op ∈ past.filter isLimit := by
    simp [List.mem_filter, limit]
  have isInside : Inside past ↔ Inside (past.filter isLimit) := by
    rw [Inside, Inside, same .semWait rfl, same .semPost rfl]
  rw [← sum_filter_of_zero zero, if_congr isInside rfl rfl]
  have cases := limit_past isPrefix
  simp only [List.mem_cons, List.not_mem_nil, or_false] at cases
  rcases cases with before | waited | closed | posted
  · rw [before]; decide
  · rw [waited]; decide
  · rw [closed]; decide
  · rw [posted]; decide

theorem tally_permit {count maxBytes : Nat} {connections : Fin count → Connection}
    {t : Threads (Fin count) Op Shared}
    (runs : t.Runs fun i => (connections i).threadRoutine maxBytes) :
    t.tally permit = -(inside t).card := by
  have each (i : Fin count) : ((t.past i).map permit).sum = if Inside (t.past i) then -1 else 0 :=
    permit_past (runs.past_prefix i)
  rw [Threads.tally, Finset.sum_congr rfl fun i _ => each i, ← Finset.sum_filter,
    Finset.sum_const, inside]
  simp

/-- At any time as many threads are past `sem_wait` and before `sem_post` as the semaphore has
given away, and a thread that has ended has posted and closed its socket once. -/
theorem clients_limited {count : Nat} (maxBytes : Nat) (connections : Fin count → Connection)
    {s : Shared} {schedule : List (Fin count)} {t : Threads (Fin count) Op Shared}
    (reached : serveAll maxBytes connections s schedule = some t) :
    (inside t).card ≤ s.semaphore ∧
      ((inside t).card : ℤ) = s.semaphore - t.shared.semaphore ∧
      ∀ i, (t.past i).count .semPost ≤ 1 ∧ (t.past i).count .close ≤ 1 ∧
        (t.rest i = [] → (t.past i).count .semPost = 1 ∧ (t.past i).count .close = 1) := by
  have runs := Threads.runs_run exec reached
  have value := Threads.run_tally exec (f := fun s : Shared => (s.semaphore : ℤ))
    (fun _ _ _ => exec_permit) reached
  rw [tally_permit runs] at value
  refine ⟨by omega, by omega, fun i => ?_⟩
  have counted (past : List Op) (op : Op) (limit : isLimit op = true) :
      past.count op = (past.filter isLimit).count op := (List.count_filter limit).symm
  have most := limit_past (runs.past_prefix i)
  rw [counted _ .semPost rfl, counted _ .close rfl]
  refine ⟨?_, ?_, fun done => ?_⟩
  · simp only [List.mem_cons, List.not_mem_nil, or_false] at most
    rcases most with same | same | same | same <;> rw [same] <;> decide
  · simp only [List.mem_cons, List.not_mem_nil, or_false] at most
    rcases most with same | same | same | same <;> rw [same] <;> decide
  · rw [runs.past_eq done, (connections i).limit_threadRoutine]
    decide

def silent (inet6 : Bool) : Connection where
  inet6 := inet6
  peerAtStart := true
  peerAtEnd := false
  gone := nofun
  first := none
  later := []
  malloc := true
  parsed := none
  enableAuth := false
  authorized := false
  domainBlocked := false
  urlBlocked := false
  cached := false
  handled := 0
  tunnel := .failed

theorem silent_limited : ∃ t,
    serveAll 4096 (fun _ : Fin 2 => silent false) ⟨1, 0, 0, 0⟩ [0, 1, 0, 1, 0, 0, 0, 0, 1] =
        some t ∧
      ((inside t).card : ℤ) = 1 - t.shared.semaphore ∧ t.rest 0 = [] ∧
      (t.past 0).count .semPost = 1 := by
  have done : (serveAll 4096 (fun _ : Fin 2 => silent false) ⟨1, 0, 0, 0⟩
      [0, 1, 0, 1, 0, 0, 0, 0, 1]).map (fun t => t.rest 0) = some [] := by
    decide
  obtain ⟨t, reached, ended⟩ := Option.map_eq_some_iff.mp done
  have limited := clients_limited 4096 _ reached
  exact ⟨t, reached, limited.2.1, ended, ((limited.2.2 0).2.2 ended).1⟩

end ProxyServer.Connections
