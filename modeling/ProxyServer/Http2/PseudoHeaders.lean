import ProxyServer.Http2.Connection

namespace ProxyServer.Http2
open Lib

def NamesPresent (targetPort : UInt16) (id : Nat) (events : List ConnEvent) : Prop :=
  ∀ past rounds, past ++ [.process rounds] <+: events →
    ∀ c, run Http2Conn.step (.init targetPort) past = some c → ∀ s, c.Forwards id s →
      s.method ≠ none ∧ s.path ≠ none ∧ s.authority ≠ none

def EverBuilds (targetPort : UInt16) (id : Nat) (events : List ConnEvent) : Prop :=
  ∃ past rounds c s, past ++ [.process rounds] <+: events ∧
    run Http2Conn.step (.init targetPort) past = some c ∧ c.Forwards id s

namespace Http2Request

structure Named (r : Http2Request) : Prop where
  path : r.path ≠ none
  authority : r.authority ≠ none
  untrailed : r.trailers = none

variable {r : Http2Request} {done : List Callback}

theorem named_iff_noticed (isPrefix : done <+: r.callbacks)
    (noticed : (done.foldl StreamRequest.receive .fresh).requestComplete = true) :
    let t := done.foldl StreamRequest.receive .fresh
    (t.method ≠ none ∧ t.path ≠ none ∧ t.authority ≠ none) ↔ r.Named := by
  by_cases begun : TrailersBegun done
  · have gone := method_of_begun isPrefix begun
    refine iff_of_false (fun present => present.1 gone) ?_
    intro named
    rcases prefix_cases isPrefix with ⟨-, alone⟩ | ⟨fields, block, trailers, -⟩
    · exact alone begun
    · rw [named.untrailed] at trailers
      cases trailers
  · rcases prefix_cases isPrefix with ⟨main, -⟩ | ⟨fields, block, -, trailing, -⟩
    · obtain ⟨method, path, authority⟩ := names_of_noticed main noticed
      obtain ⟨untrailed, -⟩ := noticed_rest main noticed
      simp only [method, path, authority]
      constructor
      · intro present
        exact ⟨present.2.1, present.2.2, untrailed⟩
      · intro named
        exact ⟨r.hasMethod, named.path, named.authority⟩
    · refine absurd ?_ begun
      rw [TrailersBegun, trailing, List.count_append, count_main, List.count_cons_self]
      omega

end Http2Request

theorem namesPresent_iff {targetPort : UInt16} {id : Nat} {r : Http2Request}
    {events : List ConnEvent} (issued : callbacksOf id events <+: r.callbacks) :
    NamesPresent targetPort id events ↔ (EverBuilds targetPort id events → r.Named) := by
  have pointwise {past : List ConnEvent} {rounds : Nat → Round}
      (isPrefix : past ++ [.process rounds] <+: events) {c : Http2Conn}
      (ran : run Http2Conn.step (.init targetPort) past = some c) {s : Http2Stream}
      (building : c.Forwards id s) :
      (s.method ≠ none ∧ s.path ≠ none ∧ s.authority ≠ none) ↔ r.Named := by
    have before : past <+: events := (List.prefix_append _ _).trans isPrefix
    have part : callbacksOf id past <+: r.callbacks := (before.filterMap _).trans issued
    have holds := Http2Conn.run_request ran id
    rw [Http2Conn.request, building.stream, Option.map_some, Option.getD_some] at holds
    have complete := building.builds.requestComplete
    rw [holds] at complete ⊢
    exact Http2Request.named_iff_noticed part complete
  constructor
  · rintro present ⟨past, rounds, c, s, isPrefix, ran, building⟩
    exact (pointwise isPrefix ran building).mp (present past rounds isPrefix c ran s building)
  · intro named past rounds isPrefix c ran s building
    exact (pointwise isPrefix ran building).mpr
      (named ⟨past, rounds, c, s, isPrefix, ran, building⟩)

def connecting (r : Http2Request) : List ConnEvent :=
  r.callbacks.map (.callback 1) ++ [.process fun _ => connectedRound]

def delivered (r : Http2Request) : List ConnEvent :=
  connecting r ++ [.process fun _ => connectedRound]

theorem namesPresent_iff_plain :
    NamesPresent 443 1 (delivered plainRequest) ↔
      (EverBuilds 443 1 (delivered plainRequest) → plainRequest.Named) :=
  namesPresent_iff (by decide)

def hostRequest : Http2Request :=
  { plainRequest with
    fields := [(ascii ":method", ascii "GET"), (ascii ":scheme", ascii "https"),
      (ascii ":path", ascii "/"), (ascii "host", ascii "a")]
    hasMethod := by decide }

def connectRequest : Http2Request :=
  { plainRequest with
    fields := [(ascii ":method", ascii "CONNECT"), (ascii ":authority", ascii "a:443")]
    hasMethod := by decide }

def trailedRequest : Http2Request :=
  { plainRequest with
    fields := [(ascii ":method", ascii "POST"), (ascii ":scheme", ascii "https"),
      (ascii ":path", ascii "/"), (ascii ":authority", ascii "a")]
    hasMethod := by decide
    frames := [⟨[ascii "A"], 0⟩]
    trailers := some [(ascii "checksum", ascii "1")]
    trailersRegular := by decide }

theorem null_authority :
    (∀ r ∈ [hostRequest, connectRequest, trailedRequest],
      run Http2Conn.step (.init 443) (delivered r) = none) ∧
      ¬ NamesPresent 443 1 (delivered hostRequest) := by
  have crashes : ∀ r ∈ [hostRequest, connectRequest, trailedRequest],
      (run Http2Conn.step (.init 443) (delivered r)).isNone = true := by decide
  refine ⟨fun r member => Option.isNone_iff_eq_none.mp (crashes r member), ?_⟩
  intro present
  have table : (run Http2Conn.step (.init 443) (connecting hostRequest)).map
      (fun c => (c.activeStreamsCount, c.maxStreams)) = some (1, 2) := by decide
  have found : (run Http2Conn.step (.init 443) (connecting hostRequest)).map
      (fun c => (c.streams 1).map fun s => decide s.Builds && s.authority.isNone) =
        some (some true) := by decide
  obtain ⟨c, ran, state⟩ := Option.map_eq_some_iff.mp found
  obtain ⟨s, stream, flags⟩ := Option.map_eq_some_iff.mp state
  simp only [ran, Option.map_some, Option.some.injEq, Prod.mk.injEq] at table
  simp only [Bool.and_eq_true, decide_eq_true_eq, Option.isNone_iff_eq_none] at flags
  have building : c.Forwards 1 s :=
    ⟨by omega, by omega, stream, flags.1⟩
  exact (present (connecting hostRequest) (fun _ => connectedRound) (List.prefix_refl _) c ran s
    building).2.2 flags.2

end ProxyServer.Http2
