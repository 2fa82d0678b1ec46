import ProxyServer.Request.Connections

namespace ProxyServer.Connections
open Lib

def isGauge (op : Op) : Bool :=
  op ∈ [.incrementActive, .incrementIpv6Active, .incrementHttp2Active, .decrementActive,
    .decrementIpv6Active, .decrementHttp2Active]

def counted (ipv6AtStart ipv6AtEnd normal : Bool) (http2 : Option Bool) : List Op :=
  .incrementActive :: ((if ipv6AtStart then [.incrementIpv6Active] else []) ++
    if normal then
      http2.elim [] handleHttp2Connection ++
        ((if ipv6AtEnd then [.decrementIpv6Active] else []) ++ [.decrementActive])
    else [])

namespace Connection

variable (c : Connection)

def normalEnd (maxBytes : Nat) : Bool :=
  c.first.any fun first =>
    !rejected first && c.malloc &&
      match c.parsed with
      | some p =>
          !(c.enableAuth && !c.authorized) && !(p.host.isSome && c.domainBlocked) &&
            !(p.path.isSome && c.urlBlocked)
      | none => c.cached || !Thread.dropped maxBytes (readHeaders maxBytes first c.later)

def session : Option Bool :=
  match c.parsed, c.tunnel with
  | some p, .http2 initialised =>
      if !c.cached && p.method = ascii "CONNECT" then some initialised else none
  | _, _ => none

structure Balanced (maxBytes : Nat) : Prop where
  normalEnd : c.normalEnd maxBytes = true
  stays : c.inet6 = true → c.peerAtStart = true → c.peerAtEnd = true
  session : c.session ≠ some false

theorem gauge_finish :
    c.finish.filter isGauge =
      (if c.peerAtEnd && c.inet6 then [.decrementIpv6Active] else []) ++ [.decrementActive] := by
  rw [finish, List.filter_append]
  split <;> rfl

theorem gauge_dispatch {p : ParsedRequest} (uncached : c.cached = false)
    (parsed : c.parsed = some p) :
    (c.dispatch p).filter isGauge = c.session.elim [] handleHttp2Connection := by
  rw [dispatch, session, parsed, uncached]
  by_cases get : p.method = ascii "GET"
  · have other : p.method ≠ ascii "CONNECT" := by
      rw [get]
      decide
    rw [if_pos get]
    cases c.tunnel <;> simp only [other] <;> split <;> first | rfl | (split <;> rfl)
  · rw [if_neg get]
    by_cases connect : p.method = ascii "CONNECT"
    · rw [if_pos connect]
      cases c.tunnel with
      | failed => rfl
      | relayed => rfl
      | http2 initialised => cases initialised <;> simp [connect] <;> rfl
    · rw [if_neg connect]
      cases c.tunnel <;> simp [connect, isGauge]

theorem gauge_answer (maxBytes : Nat) (received : Bytes) :
    (c.answer maxBytes received).filter isGauge =
      if (match c.parsed with
        | some p =>
            !(c.enableAuth && !c.authorized) && !(p.host.isSome && c.domainBlocked) &&
              !(p.path.isSome && c.urlBlocked)
        | none => c.cached || !Thread.dropped maxBytes received) then
        c.session.elim [] handleHttp2Connection ++ c.finish.filter isGauge
      else [] := by
  have cachedEnd (ops : List Op) (silent : ops.filter isGauge = []) (hit : c.cached = true) :
      (ops ++ c.finish).filter isGauge =
        c.session.elim [] handleHttp2Connection ++ c.finish.filter isGauge := by
    have none : c.session = none := by
      rw [session]
      split
      · simp [hit]
      · rfl
    rw [List.filter_append, silent, none]
    rfl
  rw [answer]
  cases parsed : c.parsed with
  | some p =>
      by_cases auth : (c.enableAuth && !c.authorized) = true
      · simp only [auth]
        rfl
      by_cases domain : (p.host.isSome && c.domainBlocked) = true
      · simp only [auth, domain]
        rfl
      by_cases url : (p.path.isSome && c.urlBlocked) = true
      · simp only [auth, domain, url]
        rfl
      simp only [auth, domain, url, Bool.false_eq_true, if_false, Bool.not_false, Bool.and_self,
        if_true]
      split
      · rename_i hit
        exact cachedEnd [.accessLog 200, .destroyParsed] rfl hit
      · rename_i miss
        rw [List.filter_append, c.gauge_dispatch (Bool.not_eq_true _ ▸ miss) parsed]
        rfl
  | none =>
      have none : c.session = none := by rw [session, parsed]
      by_cases hit : c.cached = true
      · simp only [hit, Bool.true_or, if_true]
        exact cachedEnd [.accessLog 200, .destroyParsed] rfl hit
      · simp only [hit, Bool.false_eq_true, if_false, Bool.false_or, none, Option.elim_none,
          List.nil_append]
        by_cases drop : Thread.dropped maxBytes received = true
        · simp only [drop]
          rfl
        · simp only [drop]
          rfl

theorem gauge_threadRoutine (maxBytes : Nat) :
    (c.threadRoutine maxBytes).filter isGauge =
      counted (c.peerAtStart && c.inet6) (c.peerAtEnd && c.inet6) (c.normalEnd maxBytes)
        c.session := by
  have served : (c.serve maxBytes).filter isGauge =
      if c.normalEnd maxBytes then
        c.session.elim [] handleHttp2Connection ++ c.finish.filter isGauge
      else [] := by
    cases found : c.first with
    | none =>
        have early : c.normalEnd maxBytes = false := by simp [normalEnd, found]
        rw [early, serve, found]
        rfl
    | some first =>
        by_cases raw : rejected first = true
        · have early : c.normalEnd maxBytes = false := by simp [normalEnd, found, raw]
          rw [early]
          simp only [serve, found, if_pos raw]
          rfl
        · by_cases allocated : c.malloc = false
          · have early : c.normalEnd maxBytes = false := by simp [normalEnd, found, allocated]
            rw [early]
            simp only [serve, found, if_neg raw, if_pos allocated]
            rfl
          · rw [normalEnd, found, Option.any_some]
            simp only [serve, found, Bool.not_eq_true _ ▸ raw, Bool.not_eq_false _ ▸ allocated,
              Bool.false_eq_true, Bool.true_eq_false, if_false, c.gauge_answer, Bool.not_false,
              Bool.true_and]
  rw [threadRoutine, counted, ← gauge_finish, ← served]
  simp only [List.filter_cons, List.filter_append]
  cases c.peerAtStart && c.inet6 <;> rfl

end Connection

def activeWeight : Op → ℤ
  | .incrementActive => 1
  | .decrementActive => -1
  | _ => 0

def ipv6Weight : Op → ℤ
  | .incrementIpv6Active => 1
  | .decrementIpv6Active => -1
  | _ => 0

def http2Weight : Op → ℤ
  | .incrementHttp2Active => 1
  | .decrementHttp2Active => -1
  | _ => 0

theorem gauge_of_weight {op : Op} (other : isGauge op = false) :
    activeWeight op = 0 ∧ ipv6Weight op = 0 ∧ http2Weight op = 0 := by
  cases op <;> first | exact ⟨rfl, rfl, rfl⟩ | simp [isGauge] at other

theorem decrement_eq {gauge : Int} (positive : 0 ≤ gauge + -1) : decrement gauge = gauge + -1 := by
  rw [decrement, if_pos (by omega)]
  rfl

theorem exec_gauges {op : Op} {s s' : Shared} (carried : exec op s = some s') :
    (0 ≤ s.active + activeWeight op → s'.active = s.active + activeWeight op) ∧
      (0 ≤ s.ipv6Active + ipv6Weight op → s'.ipv6Active = s.ipv6Active + ipv6Weight op) ∧
      (0 ≤ s.http2Active + http2Weight op → s'.http2Active = s.http2Active + http2Weight op) := by
  cases op <;> simp only [exec, Option.some.injEq] at carried
  case semWait =>
    split at carried
    · simp [← Option.some.inj carried, activeWeight, ipv6Weight, http2Weight]
    · simp at carried
  all_goals
    subst carried
    simp +contextual [activeWeight, ipv6Weight, http2Weight, decrement_eq]

theorem counted_inits {ipv6AtStart ipv6AtEnd : Bool} (gone : ipv6AtEnd = true → ipv6AtStart = true)
    (normal : Bool) (http2 : Option Bool) :
    ∀ past ∈ (counted ipv6AtStart ipv6AtEnd normal http2).inits,
      (past.map activeWeight).sum =
          (if .incrementActive ∈ past ∧ .decrementActive ∉ past then 1 else 0) ∧
        0 ≤ (past.map ipv6Weight).sum ∧ 0 ≤ (past.map http2Weight).sum := by
  cases ipv6AtStart <;> cases ipv6AtEnd <;> simp only [Bool.false_eq_true, imp_false,
    not_true_eq_false] at gone
  all_goals
    rcases http2 with _ | initialised
    · cases normal <;> decide
    · cases normal <;> cases initialised <;> decide

theorem counted_whole {ipv6AtStart ipv6AtEnd : Bool} (gone : ipv6AtEnd = true → ipv6AtStart = true)
    (normal : Bool) (http2 : Option Bool) {whole : List Op}
    (isWhole : whole = counted ipv6AtStart ipv6AtEnd normal http2) :
    (.incrementActive ∈ whole ∧ (.decrementActive ∈ whole ↔ normal = true)) ∧
      ((whole.map activeWeight).sum = 0 ∧ (whole.map ipv6Weight).sum = 0 ∧
          (whole.map http2Weight).sum = 0 ↔
        normal = true ∧ (ipv6AtStart = true → ipv6AtEnd = true) ∧ http2 ≠ some false) := by
  subst isWhole
  cases ipv6AtStart <;> cases ipv6AtEnd <;> simp only [Bool.false_eq_true, imp_false,
    not_true_eq_false] at gone
  all_goals
    rcases http2 with _ | initialised
    · cases normal <;> decide
    · cases normal <;> cases initialised <;> decide

variable {count maxBytes : Nat} {connections : Fin count → Connection}

theorem Connection.gone_ipv6 (c : Connection) :
    (c.peerAtEnd && c.inet6) = true → (c.peerAtStart && c.inet6) = true := by
  simp only [Bool.and_eq_true]
  exact And.imp_left c.gone

theorem gauge_past {c : Connection} {past : List Op} (isPrefix : past <+: c.threadRoutine maxBytes) :
    past.filter isGauge ∈ (counted (c.peerAtStart && c.inet6) (c.peerAtEnd && c.inet6)
      (c.normalEnd maxBytes) c.session).inits := by
  rw [← c.gauge_threadRoutine, List.mem_inits]
  exact isPrefix.filter isGauge

theorem sum_gauges (past : List Op) :
    ((past.filter isGauge).map activeWeight).sum = (past.map activeWeight).sum ∧
      ((past.filter isGauge).map ipv6Weight).sum = (past.map ipv6Weight).sum ∧
      ((past.filter isGauge).map http2Weight).sum = (past.map http2Weight).sum :=
  ⟨sum_filter_of_zero (fun _ other => (gauge_of_weight other).1) past,
    sum_filter_of_zero (fun _ other => (gauge_of_weight other).2.1) past,
    sum_filter_of_zero (fun _ other => (gauge_of_weight other).2.2) past⟩

theorem gauges_covered (c : Connection) :
    Threads.Covered activeWeight (c.threadRoutine maxBytes) ∧
      Threads.Covered ipv6Weight (c.threadRoutine maxBytes) ∧
      Threads.Covered http2Weight (c.threadRoutine maxBytes) := by
  have each {past : List Op} (isPrefix : past <+: c.threadRoutine maxBytes) :=
    counted_inits c.gone_ipv6 (c.normalEnd maxBytes) c.session _ (gauge_past isPrefix)
  refine ⟨fun past isPrefix => ?_, fun past isPrefix => ?_, fun past isPrefix => ?_⟩
  · rw [← (sum_gauges past).1, (each isPrefix).1]
    split <;> decide
  · rw [← (sum_gauges past).2.1]
    exact (each isPrefix).2.1
  · rw [← (sum_gauges past).2.2]
    exact (each isPrefix).2.2

structure Shared.Nonnegative (s : Shared) : Prop where
  active : 0 ≤ s.active
  ipv6Active : 0 ≤ s.ipv6Active
  http2Active : 0 ≤ s.http2Active

theorem gauges_eq {s : Shared} (nonnegative : s.Nonnegative) {schedule : List (Fin count)}
    {t : Threads (Fin count) Op Shared}
    (reached : serveAll maxBytes connections s schedule = some t) :
    t.shared.active = s.active + t.tally activeWeight ∧
      t.shared.ipv6Active = s.ipv6Active + t.tally ipv6Weight ∧
      t.shared.http2Active = s.http2Active + t.tally http2Weight :=
  ⟨Threads.run_tally_of_covered exec (f := Shared.active) (fun _ _ _ done => (exec_gauges done).1)
      (fun i => (gauges_covered (connections i)).1) nonnegative.active reached,
    Threads.run_tally_of_covered exec (f := Shared.ipv6Active)
      (fun _ _ _ done => (exec_gauges done).2.1)
      (fun i => (gauges_covered (connections i)).2.1) nonnegative.ipv6Active reached,
    Threads.run_tally_of_covered exec (f := Shared.http2Active)
      (fun _ _ _ done => (exec_gauges done).2.2)
      (fun i => (gauges_covered (connections i)).2.2) nonnegative.http2Active reached⟩

def running (t : Threads (Fin count) Op Shared) : Finset (Fin count) :=
  Finset.univ.filter fun i =>
    .incrementActive ∈ t.past i ∧ .decrementActive ∉ t.past i ∧ t.rest i ≠ []

theorem mem_filter_gauge {op : Op} (gauge : isGauge op = true) (past : List Op) :
    op ∈ past.filter isGauge ↔ op ∈ past := by
  simp [List.mem_filter, gauge]

theorem tally_active {t : Threads (Fin count) Op Shared}
    (runs : t.Runs fun i => (connections i).threadRoutine maxBytes) :
    t.tally activeWeight = (Finset.univ.filter fun i =>
      .incrementActive ∈ t.past i ∧ .decrementActive ∉ t.past i).card := by
  have each (i : Fin count) : ((t.past i).map activeWeight).sum =
      if .incrementActive ∈ t.past i ∧ .decrementActive ∉ t.past i then 1 else 0 := by
    have here := (counted_inits (connections i).gone_ipv6 _ _ _ (gauge_past (runs.past_prefix i))).1
    have up := mem_filter_gauge (rfl : isGauge .incrementActive = true) (t.past i)
    have down := mem_filter_gauge (rfl : isGauge .decrementActive = true) (t.past i)
    simpa only [(sum_gauges _).1, up, down] using here
  rw [Threads.tally, Finset.sum_congr rfl fun i _ => each i, ← Finset.sum_filter,
    Finset.sum_const]
  simp

theorem past_of_done {t : Threads (Fin count) Op Shared}
    (runs : t.Runs fun i => (connections i).threadRoutine maxBytes) {i : Fin count}
    (done : t.rest i = []) :
    (.incrementActive ∈ t.past i ∧
        (.decrementActive ∈ t.past i ↔ (connections i).normalEnd maxBytes = true)) ∧
      (((t.past i).map activeWeight).sum = 0 ∧ ((t.past i).map ipv6Weight).sum = 0 ∧
          ((t.past i).map http2Weight).sum = 0 ↔ (connections i).Balanced maxBytes) := by
  have past := congrArg (List.filter isGauge) (runs.past_eq done)
  have whole := counted_whole (connections i).gone_ipv6 ((connections i).normalEnd maxBytes)
    (connections i).session (past.trans ((connections i).gauge_threadRoutine maxBytes))
  rw [(sum_gauges _).1, (sum_gauges _).2.1, (sum_gauges _).2.2, mem_filter_gauge rfl,
    mem_filter_gauge rfl] at whole
  refine ⟨whole.1, whole.2.trans ⟨?_, ?_⟩⟩
  · rintro ⟨normalEnd, stays, session⟩
    refine ⟨normalEnd, fun inet6 atStart => ?_, session⟩
    simpa [inet6] using stays (by simp [inet6, atStart])
  · intro balanced
    refine ⟨balanced.normalEnd, fun atStart => ?_, balanced.session⟩
    simp only [Bool.and_eq_true] at atStart ⊢
    exact ⟨balanced.stays atStart.2 atStart.1, atStart.2⟩

/-- At any time `active_connections` is the number of running threads exactly when those that have
returned did so at the end of the routine; and when all threads have returned, the gauges are as
they were exactly when every thread has counted out what it had counted in. -/
theorem gauges_iff {s : Shared} (nonnegative : s.Nonnegative) {schedule : List (Fin count)}
    {t : Threads (Fin count) Op Shared}
    (reached : serveAll maxBytes connections s schedule = some t) :
    (t.shared.active = s.active + (running t).card ↔
        ∀ i, t.rest i = [] → (connections i).normalEnd maxBytes = true) ∧
      ((∀ i, t.rest i = []) →
        (t.shared.active = s.active ∧ t.shared.ipv6Active = s.ipv6Active ∧
            t.shared.http2Active = s.http2Active ↔
          ∀ i, (connections i).Balanced maxBytes)) := by
  have runs := Threads.runs_run exec reached
  obtain ⟨active, ipv6, http2⟩ := gauges_eq nonnegative reached
  constructor
  · rw [active, tally_active runs, running]
    have smaller : (Finset.univ.filter fun i =>
        .incrementActive ∈ t.past i ∧ .decrementActive ∉ t.past i ∧ t.rest i ≠ []) ⊆
        Finset.univ.filter fun i =>
          .incrementActive ∈ t.past i ∧ .decrementActive ∉ t.past i := by
      intro i member
      simp only [Finset.mem_filter, Finset.mem_univ, true_and] at member ⊢
      exact ⟨member.1, member.2.1⟩
    constructor
    · intro same i done
      have equal := Finset.eq_of_subset_of_card_le smaller (by omega)
      by_contra early
      have past := (past_of_done runs done).1
      have counted : i ∈ Finset.univ.filter fun i =>
          .incrementActive ∈ t.past i ∧ .decrementActive ∉ t.past i := by
        simpa [past.1] using fun out => early (past.2.mp out)
      rw [← equal] at counted
      exact (Finset.mem_filter.mp counted).2.2.2 done
    · intro normal
      congr 2
      refine congrArg Finset.card (Finset.filter_congr fun i _ => ?_)
      refine and_congr_right fun _ => ⟨fun counted => ⟨counted, fun done => ?_⟩, And.left⟩
      exact counted ((past_of_done runs done).1.2.mpr (normal i done))
  · intro done
    have covered (i : Fin count) := @gauges_covered maxBytes (connections i)
    have zero {weight : Op → ℤ} (cover : ∀ i, Threads.Covered weight
        ((connections i).threadRoutine maxBytes)) :
        t.tally weight = 0 ↔ ∀ i, ((t.past i).map weight).sum = 0 := by
      rw [Threads.tally, Finset.sum_eq_zero_iff_of_nonneg fun i _ =>
        cover i _ (runs.past_prefix i)]
      simp
    have balanced (i : Fin count) := (past_of_done runs (done i)).2
    rw [active, ipv6, http2, add_eq_left, add_eq_left, add_eq_left,
      zero fun i => (covered i).1, zero fun i => (covered i).2.1, zero fun i => (covered i).2.2,
      ← forall_and, ← forall_and]
    exact forall_congr' balanced

def answered : Connection where
  inet6 := true
  peerAtStart := true
  peerAtEnd := true
  gone _ := rfl
  first := some (ascii "GET http://a/ HTTP/1.1\r\n\r\n")
  later := []
  malloc := true
  parsed := some ⟨ascii "GET", some (ascii "a"), some (ascii "/"), ascii "HTTP/1.1", none⟩
  enableAuth := false
  authorized := false
  domainBlocked := false
  urlBlocked := false
  cached := false
  handled := 0
  tunnel := .failed

theorem answered_balanced : answered.Balanced 4096 where
  normalEnd := by decide +kernel
  stays _ _ := rfl
  session := nofun

theorem answered_gauges : ∃ t,
    serveAll 4096 (fun _ : Fin 2 => answered) ⟨1, 5, 3, 0⟩
        (List.replicate 14 0 ++ List.replicate 14 1) = some t ∧
      t.shared.active = 5 ∧ t.shared.ipv6Active = 3 ∧ t.shared.http2Active = 0 := by
  have done : (serveAll 4096 (fun _ : Fin 2 => answered) ⟨1, 5, 3, 0⟩
      (List.replicate 14 0 ++ List.replicate 14 1)).map (fun t => (t.rest 0, t.rest 1)) =
        some ([], []) := by
    decide +kernel
  obtain ⟨t, reached, ended⟩ := Option.map_eq_some_iff.mp done
  obtain ⟨first, second⟩ := Prod.mk.inj ended
  refine ⟨t, reached, ((gauges_iff ⟨by decide, by decide, by decide⟩ reached).2 ?_).mpr
    fun _ => answered_balanced⟩
  intro i
  match i with
  | 0 => exact first
  | 1 => exact second

theorem silent_counted : ∃ t,
    serveAll 4096 (fun _ : Fin 1 => silent true) ⟨1, 0, 0, 0⟩ (List.replicate 8 0) = some t ∧
      (∀ i, t.rest i = []) ∧ t.shared.active = 1 ∧ t.shared.ipv6Active = 1 ∧
      (running t).card = 0 := by
  have done : (serveAll 4096 (fun _ : Fin 1 => silent true) ⟨1, 0, 0, 0⟩
      (List.replicate 8 0)).map (fun t => (t.rest 0, t.shared.active, t.shared.ipv6Active)) =
        some ([], 1, 1) := by
    decide
  obtain ⟨t, reached, view⟩ := Option.map_eq_some_iff.mp done
  simp only [Prod.mk.injEq] at view
  obtain ⟨ended, active, ipv6⟩ := view
  have all (i : Fin 1) : t.rest i = [] := by
    rw [Subsingleton.elim i 0]
    exact ended
  refine ⟨t, reached, all, active, ipv6, ?_⟩
  rw [running, Finset.card_eq_zero, Finset.filter_eq_empty_iff]
  exact fun i _ counted => counted.2.2 (all i)

end ProxyServer.Connections
