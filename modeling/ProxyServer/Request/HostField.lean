import ProxyServer.Request.Received

namespace ProxyServer.ProxyParse
open Lib Lib.Block Lib.Lines

def hostField : Bytes := ascii "host"

def bracketed (host : Bytes) : Bytes := if 58 ∈ host then 91 :: (host ++ [93]) else host

def decimal (digits : Bytes) : Nat := digits.foldl (fun n c => n * 10 + (c.toNat - 48)) 0

def PortPart : Bytes → Int → Prop
  | [], port => port = 80
  | c :: digits, port =>
      c = 58 ∧ digits ≠ [] ∧ digits.all isdigit = true ∧ (decimal digits : Int) = port

instance : (part : Bytes) → (port : Int) → Decidable (PortPart part port)
  | [], port => inferInstanceAs (Decidable (port = 80))
  | c :: digits, port => inferInstanceAs
      (Decidable (c = 58 ∧ digits ≠ [] ∧ digits.all isdigit = true ∧ (decimal digits : Int) = port))

/-- The value is the host, in whatever case, with brackets around it if it is an IPv6 address, and
the port after it. -/
def Denotes (value host : Bytes) (port : Int) : Prop :=
  (value.take (bracketed host).length).map tolower = (bracketed host).map tolower ∧
    PortPart (value.drop (bracketed host).length) port

instance (value host : Bytes) (port : Int) : Decidable (Denotes value host port) :=
  inferInstanceAs (Decidable (_ ∧ _))

theorem trimOws_inside (s : Bytes) : trimOws s <:+: s :=
  (List.rdropWhile_prefix _ _).isInfix.trans (List.dropWhile_suffix _).isInfix

theorem denotes_host {host : Bytes} {port : Int} :
    Denotes (trimOws host) host port ↔ 58 ∉ host ∧ trimOws host = host ∧ port = 80 := by
  have short := (trimOws_inside host).length_le
  by_cases colon : 58 ∈ host
  · have longer : (bracketed host).length = host.length + 2 := by simp [bracketed, colon]
    refine iff_of_false (fun denotes => ?_) fun plain => plain.1 colon
    have lengths := congrArg List.length denotes.1
    rw [List.length_map, List.length_map, List.length_take, longer] at lengths
    omega
  · have plain : bracketed host = host := if_neg colon
    rw [Denotes, plain, List.take_of_length_le short, List.drop_of_length_le short, PortPart,
      and_iff_right colon]
    refine and_congr_left fun _ => ⟨fun same => ?_, fun same => by rw [same]⟩
    have lengths := congrArg List.length same
    rw [List.length_map, List.length_map] at lengths
    exact (trimOws_inside host).eq_of_length lengths

def ShowsHost (pr : ParsedRequest) (target : Bytes × Int) (request : Bytes) : Prop :=
  pr.hostText = some target.1 ∧
    ∃ value, valuesOf hostField (receivedFields request) = [value] ∧
      Denotes value target.1 target.2

/-- The client's own `Host` field goes upstream and denotes the target; or it is taken away, no
other spelling of it is left, and the bare host denotes the target. Where a name ends the header
section, the field that is set is not received, and another spelling has to denote the target. -/
def HostAgrees (host : Bytes) (port : Int) (fields : List (Bytes × Bytes)) : Prop :=
  if HostKept fields then
    ∃ value, valuesOf hostField (shown fields) = [value] ∧ Denotes value host port
  else if Whole fields then
    valuesOf hostField (shown (without (ascii "Host") fields)) = [] ∧
      58 ∉ host ∧ trimOws host = host ∧ port = 80
  else
    ∃ value, valuesOf hostField (shown (without (ascii "Host") fields)) = [value] ∧
      Denotes value host port

theorem without_endToEnd (fields : List (Bytes × Bytes)) :
    without (ascii "Host") (endToEnd fields) = endToEnd (without (ascii "Host") fields) := by
  simp only [endToEnd, without, List.filter_filter]
  refine List.filter_congr fun field _ => ?_
  ac_rfl

theorem hostAgrees_iff {host : Bytes} {port : Int} {fields : List (Bytes × Bytes)} :
    (∃ value, valuesOf hostField (shown (editedFields host fields)) = [value] ∧
      Denotes value host port) ↔ HostAgrees host port fields := by
  rw [shown_editedFields, HostAgrees]
  have close : valuesOf hostField [(ascii "Connection", ascii "close")] = [] := by decide
  by_cases kept : HostKept fields
  · rw [if_pos kept, if_pos kept, valuesOf_append, valuesOf_endToEnd (by decide) (by decide)]
    by_cases whole : Whole fields
    · rw [if_pos whole, close, List.append_nil]
    · rw [if_neg whole, valuesOf_nil, List.append_nil]
  · rw [if_neg kept, if_neg kept, valuesOf_append, without_endToEnd,
      valuesOf_endToEnd (by decide) (by decide)]
    by_cases whole : Whole fields
    · have set : valuesOf hostField [(ascii "Connection", ascii "close"),
          (ascii "Host", trimOws host)] = [trimOws host] := by
        have isHost : (ascii "Host").map tolower = hostField := by decide
        rw [valuesOf_cons, if_neg (by decide), valuesOf_cons, if_pos isHost, valuesOf_nil]
      rw [if_pos whole, if_pos whole, set, ← denotes_host]
      constructor
      · rintro ⟨value, one, denotes⟩
        rcases List.append_eq_singleton_iff.mp one with ⟨none, isHost⟩ | ⟨-, absurd⟩
        · obtain rfl := List.singleton_inj.mp isHost
          exact ⟨none, denotes⟩
        · simp at absurd
      · rintro ⟨none, denotes⟩
        exact ⟨trimOws host, by rw [none]; rfl, denotes⟩
    · rw [if_neg whole, if_neg whole, valuesOf_nil, List.append_nil]

section Accepted

variable {maxBytes : Nat} {f : ContentFilter} {x : Exchange maxBytes} {sent : SendResult}
  {errno : Int} {port : Port} {pr pr' : ParsedRequest} {buf line text : Bytes} {time rand : UInt32}

/-- The upstream sees the host and the port that were checked exactly when the text fits and the
`Host` field that remains agrees with them. -/
theorem hostField_agrees_iff
    (accepted : parsedRequestParse errno (newRequest port) buf = .ok (0, pr))
    (isGet : pr.textAt pr.method = .ok (ascii "GET"))
    (traced : addTraceId time rand pr = .ok pr') (isLine : upstreamLine pr' = .ok line)
    (isText : upstreamText pr' = .ok text) :
    Sends (ShowsHost pr') (forwardRequest f x sent pr') ↔
      line.length < maxBytes ∧ text.length ≠ maxBytes ∧
        ∃ host n, pr'.hostText = some host ∧ endServerPort pr' = .ok n ∧
          (x.connected = true → text.length < maxBytes ∧ HostAgrees host n pr'.fields) := by
  obtain ⟨name, path, version, ready, room, -⟩ := ready_of_accepted accepted isGet
  obtain ⟨ready', -⟩ := ready_of_traced ready room traced
  have isLine := Except.ok.inj (isLine.symm.trans ready'.upstreamLine_eq)
  have isText := Except.ok.inj (isText.symm.trans ready'.upstreamText_eq)
  rw [← isLine] at isText
  obtain ⟨whole, cut⟩ := ready'.received isLine isText
  have isHost : pr'.hostText = some name := by simp only [ParsedRequest.hostText, ready'.isHost]
  rw [ready'.sends_iff isLine isText]
  refine and_congr_right fun _ => and_congr_right fun _ => ?_
  simp only [isHost, Option.some.injEq, exists_and_left, exists_eq_left']
  refine exists_congr fun n => and_congr_right fun _ => forall_congr' fun _ => ?_
  by_cases fits : text.length < maxBytes
  · rw [if_pos fits, and_iff_right fits, ← hostAgrees_iff, ShowsHost, whole]
    simp [isHost]
  · rw [if_neg fits, ShowsHost, cut]
    simp [fits]

end Accepted

theorem root_showsHost : ∃ pr pr',
    parsedRequestParse 0 (newRequest .null) rootRequest = .ok (0, pr) ∧
      addTraceId 1 2 pr = .ok pr' ∧
      Sends (ShowsHost pr') (forwardRequest unfiltered (unanswered 100) (takes 100) pr') := by
  obtain ⟨pr, pr', of⟩ := exists_trace trace_root
  refine ⟨pr, pr', of.accepted, of.traced,
    (hostField_agrees_iff of.accepted of.isMethod of.traced of.isLine of.isText).mpr
      ⟨by decide, by decide, ascii "a", 80, of.isHost, of.isPort, fun _ => ⟨by decide, ?_⟩⟩⟩
  rw [of.fields, HostAgrees, if_neg (by decide), if_pos (by decide)]
  decide

def otherRequest : Bytes := ascii "GET http://a/ HTTP/1.1\r\nHost: b\r\n\r\n"

def otherText : Bytes := ascii
  "GET / HTTP/1.1\r\nHost: b\r\nX-Trace-Id: 0000000100000002\r\nConnection: close\r\n\r\n"

theorem other_keepsHost : ∃ pr pr' r,
    parsedRequestParse 0 (newRequest .null) otherRequest = .ok (0, pr) ∧
      addTraceId 1 2 pr = .ok pr' ∧
      forwardRequest unfiltered (unanswered 100) (takes 100) pr' = .ok r ∧
      pr'.hostText = some (ascii "a") ∧ r.target = (ascii "a", 80) ∧ r.request = some otherText ∧
      ¬ Sends (ShowsHost pr') (forwardRequest unfiltered (unanswered 100) (takes 100) pr') := by
  have done : trace 100 otherRequest = .ok (0, { rootTrace 100 otherText with
      text := otherText
      fields := [(ascii "Host", ascii "b"), (ascii "X-Trace-Id", ascii "0000000100000002")] }) := by
    decide +kernel
  obtain ⟨pr, pr', of⟩ := exists_trace done
  refine ⟨pr, pr', _, of.accepted, of.traced, of.forwarded, of.isHost, rfl, rfl, ?_⟩
  rintro ⟨r, same, shows⟩
  obtain rfl := Except.ok.inj (of.forwarded.symm.trans same)
  obtain ⟨-, value, one, denotes⟩ := shows otherText rfl
  have isValue : valuesOf hostField (receivedFields otherText) = [ascii "b"] := by decide
  obtain rfl := List.singleton_inj.mp (isValue.symm.trans one)
  exact absurd denotes (by decide)

end ProxyServer.ProxyParse
