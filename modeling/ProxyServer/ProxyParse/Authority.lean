import ProxyServer.ProxyParse.FieldLines

namespace ProxyServer.ProxyParse
open Lib Lib.Block Lib.Lines

structure Authority where
  bracketed : Bool
  host : Bytes
  port : Option Bytes
  named : host ≠ []
  hostClean : ∀ c ∈ host, 32 < c ∧ c < 127 ∧ c ≠ 91 ∧ c ≠ 93 ∧ c ≠ 47
  plainClean : bracketed = false → 58 ∉ host
  portDigits : ∀ text ∈ port, text ≠ [] ∧ ∀ c ∈ text, isdigit c

namespace Authority

def hostPart (a : Authority) : Bytes := if a.bracketed then 91 :: (a.host ++ [93]) else a.host

def portPart (a : Authority) : Bytes := a.port.elim [] (58 :: ·)

def text (a : Authority) : Bytes := a.hostPart ++ a.portPart

section

variable (a : Authority)

theorem host_notMem {c : UInt8} (other : ¬ (32 < c ∧ c < 127 ∧ c ≠ 91 ∧ c ≠ 93 ∧ c ≠ 47)) :
    c ∉ a.host := fun inside => other (a.hostClean c inside)

theorem text_bracketed (bracketed : a.bracketed = true) :
    a.text = 91 :: (a.host ++ 93 :: a.portPart) := by
  simp [text, hostPart, bracketed]

theorem text_plain (plain : a.bracketed = false) : a.text = a.host ++ a.portPart := by
  simp [text, hostPart, plain]

theorem head_plain (plain : a.bracketed = false) {c : UInt8} (first : a.text.head? = some c) :
    c ∈ a.host := by
  obtain ⟨d, host, isHost⟩ := List.exists_cons_of_ne_nil a.named
  rw [a.text_plain plain, isHost] at first
  obtain rfl : d = c := by simpa using first
  simp [isHost]

theorem head_plain_ne (plain : a.bracketed = false) : a.text.head? ≠ some 91 := fun first =>
  a.host_notMem (by decide) (a.head_plain plain first)

theorem notMem_portPart {c : UInt8} (notColon : c ≠ 58) (notDigit : isdigit c = false) :
    c ∉ a.portPart := by
  rw [portPart]
  cases isPort : a.port with
  | none => exact List.not_mem_nil
  | some port =>
      intro inside
      have inPort := (List.mem_cons.mp inside).resolve_left notColon
      simp [(a.portDigits port isPort).2 c inPort] at notDigit

theorem slash_notMem : 47 ∉ a.text := by
  have outside := a.host_notMem (c := 47) (by decide)
  rw [text, List.mem_append, not_or]
  refine ⟨?_, a.notMem_portPart (by decide) (by decide)⟩
  rw [hostPart]
  split <;> simp [outside]

theorem text_ne_nil : a.text ≠ [] := by
  rw [text, hostPart]
  split <;> simp [a.named]

theorem hostOf_text : hostOf a.text = a.host := by
  rw [hostOf]
  cases isBracketed : a.bracketed with
  | true =>
      rw [a.text_bracketed isBracketed, if_pos (by simp), if_pos (by simp), List.tail_cons]
      exact (cut_at (a.host_notMem (by decide)) a.portPart).1
  | false =>
      rw [if_neg (a.head_plain_ne isBracketed), a.text_plain isBracketed, portPart]
      cases a.port with
      | none =>
          rw [Option.elim_none, List.append_nil]
          exact takeWhile_absent (a.plainClean isBracketed)
      | some port => exact (cut_at (a.plainClean isBracketed) port).1

theorem portOf_text : portOf a.text = a.port := by
  rw [portOf]
  cases isBracketed : a.bracketed with
  | true =>
      have absent : 93 ∉ 91 :: a.host := by
        simp [a.host_notMem (c := 93) (by decide)]
      have isEnd := (cut_at absent a.portPart).2
      rw [List.cons_append] at isEnd
      have colon : (93 : UInt8) ≠ 58 := by decide
      rw [a.text_bracketed isBracketed, if_pos (by simp), if_pos (by simp), isEnd, portPart]
      cases a.port with
      | none => rfl
      | some port => exact @afterColon_append [93] (by decide) port
  | false =>
      rw [if_neg (a.head_plain_ne isBracketed), a.text_plain isBracketed, portPart]
      cases a.port with
      | none =>
          rw [Option.elim_none, List.append_nil]
          exact if_neg (a.plainClean isBracketed)
      | some port => exact afterColon_append (a.plainClean isBracketed) port

theorem host_solid (plain : a.bracketed = false) (rest : Bytes) :
    (a.host ++ rest).dropWhile (· == 58) = a.host ++ rest := by
  obtain ⟨c, host, isHost⟩ := List.exists_cons_of_ne_nil a.named
  have notColon : c ≠ 58 := by
    rintro rfl
    exact a.plainClean plain (by simp [isHost])
  rw [isHost, List.cons_append, List.dropWhile_cons_of_neg (by simpa using notColon)]

theorem connectHost_text : connectHost a.text = a.host := by
  rw [connectHost]
  cases isBracketed : a.bracketed with
  | true =>
      rw [a.text_bracketed isBracketed, if_pos (by simp), List.tail_cons]
      exact (cut_at (a.host_notMem (by decide)) a.portPart).1
  | false =>
      rw [if_neg (a.head_plain_ne isBracketed), a.text_plain isBracketed,
        a.host_solid isBracketed, portPart]
      cases a.port with
      | none =>
          rw [Option.elim_none, List.append_nil]
          exact takeWhile_absent (a.plainClean isBracketed)
      | some port => exact (cut_at (a.plainClean isBracketed) port).1

theorem connectPort_text : connectPort a.text = a.port.getD (ascii "443") := by
  rw [connectPort]
  cases isBracketed : a.bracketed with
  | true =>
      have absent : 93 ∉ 91 :: a.host := by
        simp [a.host_notMem (c := 93) (by decide)]
      have isEnd := (cut_at absent a.portPart).2
      rw [List.cons_append] at isEnd
      rw [a.text_bracketed isBracketed, if_pos (by simp), isEnd, portPart]
      cases a.port with
      | none => rfl
      | some port => rfl
  | false =>
      rw [if_neg (a.head_plain_ne isBracketed), a.text_plain isBracketed,
        a.host_solid isBracketed, portPart]
      cases isPort : a.port with
      | none =>
          have whole : a.host.dropWhile (· != 58) = [] := by
            rw [List.dropWhile_eq_nil_iff]
            intro c inside
            simp only [bne_iff_ne, ne_eq]
            exact fun same => a.plainClean isBracketed (same ▸ inside)
          rw [Option.elim_none, List.append_nil, whole]
          rfl
      | some port =>
          have rest := (cut_at (a.plainClean isBracketed) port).2
          rw [Option.elim_some, rest, List.tail_cons,
            if_neg (a.portDigits port isPort).1]
          rfl

theorem connectAccepted : ConnectAccepted a.text := by
  rw [ConnectAccepted]
  cases isBracketed : a.bracketed with
  | true =>
      rw [a.text_bracketed isBracketed, if_pos (by simp)]
      simp
  | false =>
      obtain ⟨c, inside⟩ := List.exists_mem_of_ne_nil _ a.named
      rw [if_neg (a.head_plain_ne isBracketed), a.text_plain isBracketed]
      exact ⟨c, List.mem_append_left _ inside,
        fun same => a.plainClean isBracketed (same ▸ inside)⟩

theorem not_badPort {errno : Int} (valid : errno ≠ EINVAL) (authority : Bytes) :
    ¬ BadPort errno authority := by
  rintro ⟨-, -, -, failed⟩
  rw [strtolErrno] at failed
  split at failed
  · exact valid failed
  · exact absurd failed (by decide)

end

end Authority

/-- The parse of a new object whose port is null gives this host and port. -/
def ParsesTo (errno : Int) (buf host : Bytes) (port : Port) : Prop :=
  ∃ pr, parsedRequestParse errno (newRequest .null) buf = .ok (0, pr) ∧
    pr.hostText = some host ∧ pr.port = port

section Agree

variable {errno : Int} (a : Authority) {m : Message}

theorem connect_parsesTo (isConnect : m.method = ascii "CONNECT") (address : m.address = a.text) :
    ParsesTo errno m.text a.host (.owned (a.port.getD (ascii "443"))) := by
  have valid : Valid errno m.parts m.names :=
    m.valid_connect isConnect (address ▸ a.connectAccepted)
  obtain ⟨pr, accepted, -⟩ := m.accepts valid .null
  obtain ⟨-, host, port⟩ := m.of.connect isConnect accepted
  have isAddress : m.parts.address = a.text := address
  rw [isAddress, a.connectHost_text] at host
  rw [isAddress, a.connectPort_text] at port
  exact ⟨pr, accepted, host, port⟩

theorem memmem_http (rest : Bytes) :
    memmem (unlayered (ascii "http://" ++ rest)) (ascii "://") = some (ascii "://" ++ rest) := by
  have plain : unlayered (ascii "http://" ++ rest) = 104 :: 116 :: 116 :: 112 :: 58 :: 47 :: 47 ::
      rest := rfl
  have isScheme : ascii "://" = [58, 47, 47] := rfl
  simp [plain, isScheme, memmem_cons]

theorem scheme_parsesTo (good : errno ≠ EINVAL) {authority path : Bytes}
    (isGet : m.method = ascii "GET") (found : memmem (unlayered m.address) (ascii "://") =
      some (ascii "://" ++ (authority ++ 47 :: path)))
    (nonempty : authority ≠ []) (absent : 47 ∉ authority) :
    ParsesTo errno m.text (hostOf authority) ((portOf authority).elim .null .owned) := by
  obtain ⟨isAuthority, isPath⟩ := cut_at absent path
  have gets : GetAccepted errno m.address := by
    intro rest found'
    obtain rfl := Option.some.inj (found.symm.trans found')
    have isRest : (ascii "://" ++ (authority ++ 47 :: path)).drop 3 = authority ++ 47 :: path := rfl
    rw [isRest]
    refine ⟨by simp, fun slash => ?_, Authority.not_badPort good _⟩
    rw [List.head?_append_of_ne_nil _ nonempty] at slash
    exact absent (List.mem_of_head? slash)
  have valid := m.valid_get isGet gets fun none => absurd (found.symm.trans none) (by simp)
  obtain ⟨pr, accepted, -⟩ := m.accepts valid .null
  obtain ⟨-, -, result⟩ := m.of.get isGet accepted
  refine ⟨pr, accepted, ?_⟩
  cases result with
  | relative _ none _ _ _ _ _ => exact absurd (found.symm.trans none) (by simp)
  | absolute protocol authority' path' split found' _ absent' _ _ isHost isPort _ =>
      have same := List.append_cancel_left (Option.some.inj (found.symm.trans found'))
      obtain rfl : authority = authority' := by
        rw [← isAuthority, same]
        exact (cut_at absent' path').1
      exact ⟨by simp only [ParsedRequest.hostText, isHost], isPort⟩

theorem absolute_parsesTo (good : errno ≠ EINVAL) {path : Bytes} (isGet : m.method = ascii "GET")
    (address : m.address = ascii "http://" ++ (a.text ++ 47 :: path)) :
    ParsesTo errno m.text a.host (a.port.elim .null .owned) := by
  have found : memmem (unlayered m.address) (ascii "://") =
      some (ascii "://" ++ (a.text ++ 47 :: path)) := by
    rw [address, memmem_http]
  have parses := scheme_parsesTo good isGet found a.text_ne_nil a.slash_notMem
  rwa [a.hostOf_text, a.portOf_text] at parses

theorem unlayered_single {path : Bytes} (single : ¬ ascii "://" <:+: 47 :: path) :
    unlayered (47 :: path) = 47 :: path := by
  have layer (scheme : Bytes) (isScheme : ascii "://" <:+: 47 :: scheme) :
      ¬ (47 :: scheme).isPrefixOf (47 :: path) = true := fun starts =>
    single (isScheme.trans (List.isPrefixOf_iff_prefix.mp starts).isInfix)
  rw [unlayered, if_neg]
  rw [Bool.or_eq_true, not_or]
  exact ⟨layer (ascii "http://") (by decide), layer (ascii "https://") (by decide)⟩

theorem single_of_unlayered {path : Bytes}
    (absent : memmem (unlayered (47 :: path)) (ascii "://") = none) :
    ¬ ascii "://" <:+: 47 :: path := by
  rw [memmem_eq_none, unlayered] at absent
  split at absent
  · rename_i layered
    rw [Bool.or_eq_true, List.isPrefixOf_iff_prefix, List.isPrefixOf_iff_prefix] at layered
    refine absurd ?_ absent
    rcases layered with ⟨rest, whole⟩ | ⟨rest, whole⟩
    · rw [← whole]
      exact List.IsInfix.trans (by decide : ascii "://" <:+: ascii "http://")
        (List.prefix_append _ _).isInfix
    · rw [← whole]
      exact List.IsInfix.trans (by decide : ascii "://" <:+: ascii "https://")
        (List.prefix_append _ _).isInfix
  · exact absent

/-- After the first "://" of the target, and up to the next slash, stands an authority for the same
host and port. -/
def ReadsAs (a : Authority) (target : Bytes) : Prop :=
  ∃ authority rest, memmem (unlayered target) (ascii "://") =
      some (ascii "://" ++ (authority ++ 47 :: rest)) ∧
    authority ≠ [] ∧ 47 ∉ authority ∧ hostOf authority = a.host ∧ portOf authority = a.port

theorem origin_parsesTo {path : Bytes} (single : ¬ ascii "://" <:+: 47 :: path)
    (isGet : m.method = ascii "GET") (address : m.address = 47 :: path)
    (field : (ascii "Host", a.text) ∈ m.kept) :
    ParsesTo errno m.text a.host (a.port.elim .null .owned) := by
  have absent : memmem (unlayered m.address) (ascii "://") = none := by
    rw [address, unlayered_single single]
    exact memmem_eq_none.mpr single
  have hosted : ascii "Host" ∈ m.names := by
    rw [← m.keys_fieldsRead, m.fieldsRead_eq]
    exact mem_keys_latest.mp (List.mem_map_of_mem (f := Prod.fst) field)
  have valid : Valid errno m.parts m.names := m.valid_get isGet
    (fun rest found => absurd (absent.symm.trans found) (by simp)) fun _ => hosted
  obtain ⟨pr, accepted, fields⟩ := m.accepts valid .null
  obtain ⟨-, -, result⟩ := m.of.get isGet accepted
  refine ⟨pr, accepted, ?_⟩
  cases result with
  | absolute _ _ _ _ found _ _ _ _ _ _ _ => exact absurd (absent.symm.trans found) (by simp)
  | relative value _ member _ isHost isPort _ =>
      have distinct : (keys pr.fields).Nodup := by
        rw [fields]
        exact nodup_latest _
      rw [← fields] at field
      obtain rfl : value = a.text :=
        congrArg Prod.snd (List.inj_on_of_nodup_map distinct member field rfl)
      rw [a.hostOf_text] at isHost
      rw [a.portOf_text] at isPort
      exact ⟨by simp only [ParsedRequest.hostText, isHost], isPort⟩

theorem port_injective {p q : Option Bytes}
    (same : p.elim Port.null Port.owned = q.elim Port.null Port.owned) : p = q := by
  cases p <;> cases q <;> simp_all

theorem origin_parsesTo_iff (good : errno ≠ EINVAL) {path : Bytes} (isGet : m.method = ascii "GET")
    (address : m.address = 47 :: path) (field : (ascii "Host", a.text) ∈ m.kept) :
    ParsesTo errno m.text a.host (a.port.elim .null .owned) ↔
      ¬ ascii "://" <:+: 47 :: path ∨ ReadsAs a (47 :: path) := by
  constructor
  · rintro ⟨pr, accepted, host, port⟩
    obtain ⟨-, -, result⟩ := m.of.get isGet accepted
    have isAddress : m.parts.address = 47 :: path := address
    cases result with
    | relative _ absent _ _ _ _ _ =>
        rw [isAddress] at absent
        exact .inl (single_of_unlayered absent)
    | absolute protocol authority rest _ found nonempty absent _ _ isHost isPort _ =>
        rw [isAddress] at found
        refine .inr ⟨authority, rest, found, nonempty, absent, ?_, ?_⟩
        · simpa only [ParsedRequest.hostText, isHost, Option.some.injEq] using host
        · exact port_injective (isPort.symm.trans port)
  · rintro (single | ⟨authority, rest, found, nonempty, absent, host, port⟩)
    · exact origin_parsesTo a single isGet address field
    · rw [← address] at found
      rw [← host, ← port]
      exact scheme_parsesTo good isGet found nonempty absent

/-- One authority as the target of a `CONNECT`, in an absolute target and in a `Host` field, which
is not looked at where the target has "://" in it. -/
theorem authority_readers_agree (good : errno ≠ EINVAL) (a : Authority) :
    (∀ m : Message, m.method = ascii "CONNECT" → m.address = a.text →
      ParsesTo errno m.text a.host (.owned (a.port.getD (ascii "443")))) ∧
    (∀ (m : Message) (path : Bytes), m.method = ascii "GET" →
      m.address = ascii "http://" ++ (a.text ++ 47 :: path) →
      ParsesTo errno m.text a.host (a.port.elim .null .owned)) ∧
    (∀ (m : Message) (path : Bytes), m.method = ascii "GET" →
      m.address = 47 :: path → (ascii "Host", a.text) ∈ m.kept →
      (ParsesTo errno m.text a.host (a.port.elim .null .owned) ↔
        ¬ ascii "://" <:+: 47 :: path ∨ ReadsAs a (47 :: path))) :=
  ⟨fun _ isConnect address => connect_parsesTo a isConnect address,
    fun _ _ isGet address => absolute_parsesTo a good isGet address,
    fun _ _ isGet address field => origin_parsesTo_iff a good isGet address field⟩

theorem loopback_clean :
    ∀ c ∈ ascii "::1", 32 < c ∧ c < 127 ∧ c ≠ 91 ∧ c ≠ 93 ∧ c ≠ 47 := by
  decide +kernel

theorem eighty_digits : ∀ text ∈ some (ascii "80"), text ≠ [] ∧ ∀ c ∈ text, isdigit c := by
  decide +kernel

def loopback : Authority where
  bracketed := true
  host := ascii "::1"
  port := some (ascii "80")
  named := List.cons_ne_nil _ _
  hostClean := loopback_clean
  plainClean := nofun
  portDigits := eighty_digits

theorem loopback_line :
    ¬ crlf <:+: ascii "GET http://[::1]:80/ HTTP/1.1" ∧ 0 ∉ ascii "GET http://[::1]:80/ HTTP/1.1" := by
  decide

theorem loopback_http : HttpVersion (ascii " HTTP/1.1") := by
  decide

theorem loopback_sized :
    Sized (ascii "GET http://[::1]:80/ HTTP/1.1" ++ (crlf ++ (terminated [] ++ (crlf ++ [])))) := by
  rw [Sized]
  decide

theorem loopback_words : requestWords (ascii "GET http://[::1]:80/ HTTP/1.1") =
    some (ascii "GET", ascii "http://[::1]:80/", ascii " HTTP/1.1") := rfl

theorem loopback_known : ascii "GET" = ascii "GET" ∨ ascii "GET" = ascii "CONNECT" := .inl rfl

def toLoopback : Message where
  first := ascii "GET http://[::1]:80/ HTTP/1.1"
  method := ascii "GET"
  address := ascii "http://[::1]:80/"
  after := ascii " HTTP/1.1"
  fields := []
  body := []
  clean := loopback_line
  words := loopback_words
  known := loopback_known
  http := loopback_http
  sized := loopback_sized

theorem loopback_absolute : ParsesTo 0 (ascii "GET http://[::1]:80/ HTTP/1.1\r\n\r\n")
    (ascii "::1") (.owned (ascii "80")) :=
  (@authority_readers_agree 0 (by decide) loopback).2.1 toLoopback [] rfl (by decide)

theorem named_clean : ∀ c ∈ ascii "a", 32 < c ∧ c < 127 ∧ c ≠ 91 ∧ c ≠ 93 ∧ c ≠ 47 := by
  decide +kernel

theorem named_plain : 58 ∉ ascii "a" := by
  decide

def named : Authority where
  bracketed := false
  host := ascii "a"
  port := some (ascii "80")
  named := List.cons_ne_nil _ _
  hostClean := named_clean
  plainClean := fun _ => named_plain
  portDigits := eighty_digits

def hostOnly : Authority := { named with port := none, portDigits := nofun }

theorem query_misleads_reader :
    ¬ ParsesTo 0 (ascii "GET /r?u=http://evil/ HTTP/1.1\r\nHost: " ++ hostOnly.text ++
      ascii "\r\n\r\n") hostOnly.host (hostOnly.port.elim .null .owned) := by
  rintro ⟨pr, accepted, host, -⟩
  have parsed : ((parsedRequestParse 0 (newRequest .null)
      (ascii "GET /r?u=http://evil/ HTTP/1.1\r\nHost: " ++ hostOnly.text ++
        ascii "\r\n\r\n")).toOption.map fun result => result.2.hostText) =
      some (some (ascii "evil")) := by
    decide +kernel
  rw [accepted] at parsed
  have isEvil : pr.hostText = some (ascii "evil") := Option.some.inj parsed
  exact absurd (host.symm.trans isEvil) (by decide)

end Agree

end ProxyServer.ProxyParse
