import ProxyServer.ProxyParse.Accepted

namespace ProxyServer.ProxyParse
open Lib Lib.Block Lib.Lines

def FollowsHost (address value : Bytes) (pr : ParsedRequest) : Prop :=
  pr.host = some (.owned (hostOf value)) ∧ pr.port = (portOf value).elim .null .owned ∧
    pr.path = some address

theorem unlayered_of_single {address : Bytes} (single : ¬ ascii "/http://" <+: address)
    (single' : ¬ ascii "/https://" <+: address) : unlayered address = address := by
  rw [unlayered, if_neg]
  rw [Bool.or_eq_true, List.isPrefixOf_iff_prefix, List.isPrefixOf_iff_prefix, not_or]
  exact ⟨single, single'⟩

section Origin

variable {errno : Int} {port : Port} {pr : ParsedRequest} {buf first body : Bytes}
  {lines : List Bytes} {address after value : Bytes}

theorem origin_followsHost_iff (request : IsRequest buf first lines body)
    (words : requestWords first = some (ascii "GET", address, after))
    (slash : address.head? = some 47) (single : ¬ ascii "/http://" <+: address)
    (single' : ¬ ascii "/https://" <+: address)
    (accepted : parsedRequestParse errno (newRequest port) buf = .ok (0, pr))
    (field : (ascii "Host", value) ∈ pr.fields) :
    FollowsHost address value pr ↔ ¬ ascii "://" <:+: address := by
  obtain ⟨method, address', after', of, -, fields, -⟩ := request.parts_of accepted
  obtain ⟨rfl, rfl, rfl⟩ : method = ascii "GET" ∧ address' = address ∧ after' = after := by
    simpa using of.words.symm.trans words
  have isAddress := unlayered_of_single single single'
  obtain ⟨-, -, result⟩ := of.get rfl accepted
  cases result with
  | absolute protocol authority path split found _ _ _ _ _ _ isPath =>
      simp only [isAddress] at split found
      have scheme : ascii "://" <:+: address' :=
        not_not.mp (mt memmem_eq_none.mpr (by simp [found]))
      refine iff_of_false (fun follows => ?_) (not_not.mpr scheme)
      -- What is left for the path is shorter than the target.
      have whole : 47 :: path = address' := Option.some.inj (isPath.symm.trans follows.2.2)
      have lengths := congrArg List.length (whole.trans split)
      have three : (ascii "://").length = 3 := rfl
      simp only [List.length_append, List.length_cons, three] at lengths
      omega
  | relative value' absent member _ isHost isPort isPath =>
      simp only [isAddress] at absent isPath
      have distinct : (keys pr.fields).Nodup := fields ▸ nodup_latest _
      obtain rfl : value' = value :=
        congrArg Prod.snd (List.inj_on_of_nodup_map distinct member field rfl)
      rw [slashed, if_pos slash] at isPath
      exact iff_of_true ⟨isHost, isPort, isPath⟩ (memmem_eq_none.mp absent)

theorem origin_followsHost_root : ∃ pr,
    parsedRequestParse 0 (newRequest .null) (ascii "GET / HTTP/1.1\r\nHost: a\r\n\r\n") =
      .ok (0, pr) ∧ FollowsHost (ascii "/") (ascii "a") pr := by
  have request : IsRequest (ascii "GET / HTTP/1.1\r\nHost: a\r\n\r\n") (ascii "GET / HTTP/1.1")
      [ascii "Host: a"] [] := by
    refine ⟨by decide, by decide, ?_⟩
    simp only [List.mem_singleton, forall_eq]
    exact ⟨by decide, by decide, by decide⟩
  have parsed : ((parsedRequestParse 0 (newRequest .null)
      (ascii "GET / HTTP/1.1\r\nHost: a\r\n\r\n")).toOption.map fun result =>
        (result.1, result.2.fields)) = some (0, [(ascii "Host", ascii "a")]) := by
    decide +kernel
  cases accepted : parsedRequestParse 0 (newRequest .null)
      (ascii "GET / HTTP/1.1\r\nHost: a\r\n\r\n") with
  | error fault => simp [accepted, Except.toOption] at parsed
  | ok result =>
      obtain ⟨ret, pr⟩ := result
      obtain ⟨rfl, fields⟩ : ret = 0 ∧ pr.fields = [(ascii "Host", ascii "a")] := by
        simpa [accepted, Except.toOption] using parsed
      have words : requestWords (ascii "GET / HTTP/1.1") =
          some (ascii "GET", ascii "/", ascii " HTTP/1.1") := by decide
      have field : (ascii "Host", ascii "a") ∈ pr.fields := by simp [fields]
      exact ⟨pr, rfl, (origin_followsHost_iff request words (by decide) (by decide) (by decide)
        accepted field).mpr (by decide)⟩

theorem query_overrides_host : ∃ pr,
    parsedRequestParse 0 (newRequest .null)
        (ascii "GET /r?u=http://evil/ HTTP/1.1\r\nHost: a\r\n\r\n") = .ok (0, pr) ∧
      (ascii "Host", ascii "a") ∈ pr.fields ∧ pr.host = some (.owned (ascii "evil")) ∧
      ¬ FollowsHost (ascii "/r?u=http://evil/") (ascii "a") pr := by
  have parsed : ((parsedRequestParse 0 (newRequest .null)
      (ascii "GET /r?u=http://evil/ HTTP/1.1\r\nHost: a\r\n\r\n")).toOption.map fun result =>
        (result.1, result.2.fields, result.2.host)) =
      some (0, [(ascii "Host", ascii "a")], some (.owned (ascii "evil"))) := by
    decide +kernel
  cases accepted : parsedRequestParse 0 (newRequest .null)
      (ascii "GET /r?u=http://evil/ HTTP/1.1\r\nHost: a\r\n\r\n") with
  | error fault => simp [accepted, Except.toOption] at parsed
  | ok result =>
      obtain ⟨ret, pr⟩ := result
      obtain ⟨rfl, fields, host⟩ : ret = 0 ∧ pr.fields = [(ascii "Host", ascii "a")] ∧
          pr.host = some (.owned (ascii "evil")) := by
        simpa [accepted, Except.toOption] using parsed
      refine ⟨pr, rfl, by simp [fields], host, fun follows => ?_⟩
      exact absurd (host.symm.trans follows.1) (by decide)

end Origin

end ProxyServer.ProxyParse
