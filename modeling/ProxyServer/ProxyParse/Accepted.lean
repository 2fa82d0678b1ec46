import ProxyServer.ProxyParse.View

namespace ProxyServer.ProxyParse
open Lib Lib.Block Lib.Lines

structure Parts where
  first : Bytes
  lines : List Bytes
  body : Bytes
  method : Bytes
  address : Bytes
  after : Bytes

structure Parts.Of (p : Parts) (buf : Bytes) : Prop where
  request : IsRequest buf p.first p.lines p.body
  sized : Sized buf
  words : requestWords p.first = some (p.method, p.address, p.after)
  known : p.method = ascii "GET" ∨ p.method = ascii "CONNECT"
  http : HttpVersion p.after
  linesRead : LinesRead p.lines p.body

structure Parts.Parsed (p : Parts) (buf : Bytes) (pr : ParsedRequest) : Prop where
  of : p.Of buf
  comes : ColonComes p.lines p.body
  fields : pr.fields = latest (fieldsRead p.lines p.body)
  intact : Intact pr

section Accepted

variable {errno : Int} {port : Port} {pr : ParsedRequest} {buf : Bytes} {p : Parts}

theorem Parts.Of.exists_cut (of : p.Of buf) : ∃ block start fullAddr version,
    Cut p.first p.method p.address p.after block start fullAddr version :=
  ProxyParse.exists_cut of.request.first.2 of.words of.http.spaced of.known

theorem sized_of_accepted (accepted : parsedRequestParse errno (newRequest port) buf = .ok (0, pr)) :
    Sized buf ∧ crlf ++ crlf <:+: cstr buf := by
  have fresh : (newRequest port).buf = none := rfl
  constructor
  · intro refused
    rw [ProxyParse.parse_refused fresh (or_assoc.mp (.inl refused))] at accepted
    simp at accepted
  · by_contra endless
    rw [ProxyParse.parse_refused fresh (.inr (.inr endless))] at accepted
    simp at accepted

theorem IsRequest.parts_of {first body : Bytes} {lines : List Bytes}
    (request : IsRequest buf first lines body)
    (accepted : parsedRequestParse errno (newRequest port) buf = .ok (0, pr)) :
    ∃ method address after, Parts.Parsed ⟨first, lines, body, method, address, after⟩ buf pr := by
  have fresh : (newRequest port).buf = none := rfl
  have intact := Intact.newRequest port
  have sized := (sized_of_accepted accepted).1
  have reads : Reads errno first lines body := by
    by_contra unread
    obtain ⟨fault, -, failed⟩ := request.parseLines_fault intact unread
    rw [request.parse_eq fresh sized, failed] at accepted
    simp at accepted
  by_cases known : ∃ method address after, requestWords first = some (method, address, after) ∧
      (method = ascii "GET" ∨ method = ascii "CONNECT")
  · obtain ⟨method, address, after, words, known⟩ := known
    obtain ⟨spaced, linesRead⟩ := reads method address after words known
    obtain ⟨block, start, fullAddr, version, cut⟩ :=
      ProxyParse.exists_cut request.first.2 words spaced known
    have http : HttpVersion after := by
      by_contra other
      rw [request.parse_notHttp sized cut other fresh] at accepted
      simp at accepted
    obtain ⟨⟨parse', goesOn⟩, targeted, decides, -⟩ :=
      @parseTarget_read errno (withLine (newRequest port) block start version) _ _ _ _ _ rfl rfl
        cut.pointsMethod cut.pointsAddress
    cases goesOn with
    | false =>
        rw [request.parse_refused sized cut http fresh targeted] at accepted
        simp at accepted
    | true =>
        have linesRead := linesRead ⟨http, decides.mp rfl⟩
        obtain ⟨ret, pr', intact', -, fields, isRet, done⟩ :=
          request.parse_accepted sized cut http fresh intact targeted linesRead
        have fields : pr'.fields = latest (fieldsRead lines body) :=
          fields.trans (foldl_assign_nil _)
        rw [done] at accepted
        have of : Parts.Of ⟨first, lines, body, method, address, after⟩ buf :=
          ⟨request, sized, words, known, http, linesRead⟩
        split at accepted
        · rename_i relative
          have colons := isRet.resolve_right fun failed => by simp [relative.1] at failed
          obtain ⟨value, -, rfl⟩ := parseHost_accepted intact'.distinct accepted
          exact ⟨method, address, after, of, colons.2, fields, intact'.congr rfl rfl⟩
        · obtain ⟨rfl, rfl⟩ : ret = 0 ∧ pr' = pr := by simpa using accepted
          exact ⟨method, address, after, of, (isRet.resolve_right (by simp)).2, fields, intact'⟩
  · obtain ⟨method, refused⟩ := request.parse_unknown sized
      fun method address after words => not_or.mp fun known' =>
        known ⟨method, address, after, words, known'⟩
    rw [refused errno _ fresh] at accepted
    simp at accepted

theorem exists_parts (accepted : parsedRequestParse errno (newRequest port) buf = .ok (0, pr)) :
    ∃ p : Parts, p.Parsed buf pr := by
  obtain ⟨first, lines, body, request⟩ := exists_request (sized_of_accepted accepted).2
  obtain ⟨method, address, after, parsed⟩ := request.parts_of accepted
  exact ⟨_, parsed⟩

inductive GetResult (errno : Int) (port : Port) (address : Bytes) (pr : ParsedRequest) : Prop where
  | absolute (protocol authority path : Bytes)
      (split : unlayered address = protocol ++ (ascii "://" ++ (authority ++ 47 :: path)))
      (found : memmem (unlayered address) (ascii "://") =
        some (ascii "://" ++ (authority ++ 47 :: path)))
      (nonempty : authority ≠ []) (absent : 47 ∉ authority) (good : ¬ BadPort errno authority)
      (isProtocol : pr.protocol = some protocol)
      (isHost : pr.host = some (.owned (hostOf authority)))
      (isPort : pr.port = (portOf authority).elim port .owned)
      (isPath : pr.path = some (47 :: path))
  | relative (value : Bytes) (absent : memmem (unlayered address) (ascii "://") = none)
      (member : (ascii "Host", value) ∈ pr.fields) (isProtocol : pr.protocol = some (ascii "http"))
      (isHost : pr.host = some (.owned (hostOf value)))
      (isPort : pr.port = (portOf value).elim .null .owned)
      (isPath : pr.path = some (slashed (unlayered address)))

theorem getRead_result {errno : Int} {parse parse' : ParsedRequest} {address : Bytes}
    (goesOn : getRead errno parse address = (parse', true)) (pr : ParsedRequest)
    (same : SameLine parse' pr) :
    (pr.buf = parse.buf ∧ pr.method = parse.method ∧ pr.version = parse.version) ∧
      (pr.host = none ∧ memmem (unlayered address) (ascii "://") = none ∧ pr.port = .null ∧
          pr.protocol = some (ascii "http") ∧ pr.path = some (slashed (unlayered address)) ∨
        pr.host ≠ none ∧ GetResult errno parse.port address pr) := by
  rw [getRead] at goesOn
  cases found : memmem (unlayered address) (ascii "://") with
  | none =>
      simp only [found, relativeRead, Prod.mk.injEq, and_true] at goesOn
      subst goesOn
      rw [same]
      exact ⟨⟨rfl, rfl, rfl⟩, .inl ⟨rfl, rfl, rfl, rfl, rfl⟩⟩
  | some rest =>
      obtain ⟨protocol, split⟩ := memmem_suffix found
      obtain ⟨target, starts⟩ := memmem_starts found
      have place : (unlayered address).length - rest.length = protocol.length := by
        rw [← split, List.length_append, Nat.add_sub_cancel]
      have isProtocol : (unlayered address).take protocol.length = protocol := by
        rw [← split, List.take_left]
      have isTarget : rest.drop 3 = target := by
        rw [← starts]
        rfl
      simp only [found, place, isProtocol, isTarget, absoluteRead] at goesOn
      split at goesOn
      · simp at goesOn
      · rename_i pathed
        obtain ⟨slash, named⟩ := not_or.mp pathed
        obtain ⟨authority, path, rfl, absent⟩ := List.eq_append_cons_of_mem (not_not.mp slash)
        obtain ⟨isAuthority, isPath⟩ := cut_at absent path
        rw [isAuthority, isPath, authorityRead] at goesOn
        split at goesOn
        · simp at goesOn
        · rename_i good
          obtain ⟨rfl, -⟩ := Prod.mk.inj goesOn
          have nonempty : authority ≠ [] := by
            rintro rfl
            exact named rfl
          rw [← starts] at split
          refine ⟨by rw [same]; exact ⟨rfl, rfl, rfl⟩, .inr ⟨by rw [same]; simp,
            .absolute protocol authority path split.symm ?_ nonempty absent good ?_ ?_ ?_ ?_⟩⟩
          · rw [found, ← starts]
          all_goals rw [same]

theorem Parts.Of.get (of : p.Of buf) (isGet : p.method = ascii "GET")
    (accepted : parsedRequestParse errno (newRequest port) buf = .ok (0, pr)) :
    pr.textAt pr.method = .ok (ascii "GET") ∧ pr.textAt pr.version = .ok p.after.tail ∧
      GetResult errno port p.address pr := by
  obtain ⟨block, start, fullAddr, version, cut⟩ := of.exists_cut
  have targeted : parseTarget errno (withLine (newRequest port) block start version) fullAddr =
      .ok (getRead errno (withLine (newRequest port) block start version) p.address) := by
    rw [cut.parseTarget_eq, isGet]
    rfl
  cases goesOn : getRead errno (withLine (newRequest port) block start version) p.address with
  | mk parse' decision =>
      rw [goesOn] at targeted
      cases decision with
      | false =>
          rw [of.request.parse_refused of.sized cut of.http rfl targeted] at accepted
          simp at accepted
      | true =>
          obtain ⟨ret, pr', intact, same, fields, -, done⟩ :=
            of.request.parse_accepted of.sized cut of.http rfl (.newRequest port) targeted
              of.linesRead
          obtain ⟨⟨isBuf, isMethod, isVersion⟩, target⟩ := getRead_result goesOn pr' same
          have isGet' : pr'.textAt pr'.method = .ok (ascii "GET") := by
            rw [isMethod, ← isGet]
            exact ParsedRequest.textAt_of_points isBuf cut.pointsMethod
          have isVersion' : pr'.textAt pr'.version = .ok p.after.tail := by
            rw [isVersion]
            exact ParsedRequest.textAt_of_points isBuf cut.pointsVersion
          have host : pr'.host = parse'.host := by rw [same]
          rw [done, ← host] at accepted
          rcases target with ⟨noHost, absent, isPort, isProtocol, isPath⟩ | ⟨hasHost, result⟩
          · split at accepted
            · obtain ⟨value, member, rfl⟩ := parseHost_accepted intact.distinct accepted
              have string : 0 ∉ value := by
                rw [fields.trans (foldl_assign_nil _)] at member
                exact (fieldsRead_string (mem_of_mem_latest member)).2
              refine ⟨isGet', isVersion', .relative value absent member isProtocol ?_ ?_ isPath⟩
              · rw [hostRead, cstr_of_string string]
              · rw [hostRead, cstr_of_string string, isPort]
            · rename_i unhosted
              obtain ⟨rfl, rfl⟩ : ret = 0 ∧ pr' = pr := by simpa using accepted
              exact absurd ⟨rfl, noHost, by rw [isGet]; decide⟩ unhosted
          · rw [if_neg fun unhosted => hasHost unhosted.2.1] at accepted
            obtain ⟨rfl, rfl⟩ : ret = 0 ∧ pr' = pr := by simpa using accepted
            exact ⟨isGet', isVersion', result⟩

theorem Parts.Of.tunnel (of : p.Of buf) (isConnect : p.method = ascii "CONNECT")
    (accepted : parsedRequestParse errno (newRequest port) buf = .ok (0, pr)) :
    ∃ line start version block host, Points block start (ascii "CONNECT") ∧
      HostText block host (connectHost p.address) ∧
      SameLine (tunnelTo (withLine (newRequest port) line start version) block host
        (connectPort p.address)).1 pr := by
  obtain ⟨line, start, fullAddr, version, cut⟩ := of.exists_cut
  have targeted := @Cut.parseTarget_eq errno (newRequest port) _ _ _ _ _ _ _ _ cut
  rw [isConnect, if_pos rfl] at targeted
  by_cases connected : ConnectAccepted p.address
  · obtain ⟨block, host, isHost, frame, parsed⟩ :=
      parseConnect_accepted cut.pointsAddress connected
    rw [parsed] at targeted
    obtain ⟨ret, pr', -, same, -, -, done⟩ :=
      of.request.parse_accepted of.sized cut of.http rfl (.newRequest port) targeted of.linesRead
    rw [if_neg (by simp)] at done
    obtain ⟨-, rfl⟩ : ret = 0 ∧ pr' = pr := by simpa [done] using accepted
    have pointsMethod := frame start _ cut.pointsMethod cut.early
    rw [isConnect] at pointsMethod
    exact ⟨line, start, version, block, host, pointsMethod, isHost, same⟩
  · obtain ⟨host, refused⟩ := @parseConnect_refused
      (withLine (newRequest port) line start version) _ _ _ cut.pointsAddress connected
    rw [refused] at targeted
    rw [of.request.parse_refused of.sized cut of.http rfl targeted] at accepted
    simp at accepted

theorem Parts.Of.connect (of : p.Of buf) (isConnect : p.method = ascii "CONNECT")
    (accepted : parsedRequestParse errno (newRequest port) buf = .ok (0, pr)) :
    pr.textAt pr.method = .ok (ascii "CONNECT") ∧ pr.hostText = some (connectHost p.address) ∧
      pr.port = .owned (connectPort p.address) := by
  obtain ⟨line, start, version, block, host, pointsMethod, isHost, same⟩ :=
    of.tunnel isConnect accepted
  have isMethod : pr.method = some start := congrArg ParsedRequest.method same
  have isBuf : pr.buf = some block := congrArg ParsedRequest.buf same
  have isHost' : pr.host = some host := congrArg ParsedRequest.host same
  refine ⟨?_, ?_, congrArg ParsedRequest.port same⟩
  · rw [isMethod]
    exact ParsedRequest.textAt_of_points isBuf pointsMethod
  · cases host with
    | owned name =>
        have isName : name = connectHost p.address := isHost
        simp only [ParsedRequest.hostText, isHost', isName]
    | inBuf i =>
        simp only [ParsedRequest.hostText, isHost',
          ParsedRequest.textAt_of_points isBuf isHost, Except.toOption]

theorem path_of_accepted (accepted : parsedRequestParse errno (newRequest port) buf = .ok (0, pr)) :
    pr.path.isSome := by
  obtain ⟨p, of, -⟩ := exists_parts accepted
  rcases of.known with isGet | isConnect
  · obtain ⟨-, -, result⟩ := of.get isGet accepted
    cases result with
    | absolute _ _ _ _ _ _ _ _ _ _ _ isPath => rw [isPath]; rfl
    | relative _ _ _ _ _ _ isPath => rw [isPath]; rfl
  · obtain ⟨_, _, _, _, _, -, -, same⟩ := of.tunnel isConnect accepted
    have isPath : pr.path = some (ascii "/") := congrArg ParsedRequest.path same
    rw [isPath]
    rfl

def Hosted (p : Parts) (names : List Bytes) : Prop :=
  p.method = ascii "GET" → memmem (unlayered p.address) (ascii "://") = none →
    ascii "Host" ∈ names

def Valid (errno : Int) (p : Parts) (names : List Bytes) : Prop :=
  Accepted errno p.method p.address p.after ∧ Hosted p names

theorem Parts.Of.parse (of : p.Of buf) (line : Accepted errno p.method p.address p.after)
    (port : Port) :
    ∃ pr, ColonComes p.lines p.body ∧ Hosted p (keys (fieldsRead p.lines p.body)) ∧
        parsedRequestParse errno (newRequest port) buf = .ok (0, pr) ∧
        pr.fields = latest (fieldsRead p.lines p.body) ∨
      ¬ (ColonComes p.lines p.body ∧ Hosted p (keys (fieldsRead p.lines p.body))) ∧
        parsedRequestParse errno (newRequest port) buf = .ok (-1, pr) := by
  obtain ⟨block, start, fullAddr, version, cut⟩ := of.exists_cut
  obtain ⟨⟨parse', goesOn⟩, targeted, decides, -⟩ :=
    @parseTarget_read errno (withLine (newRequest port) block start version) _ _ _ _ _ rfl rfl
      cut.pointsMethod cut.pointsAddress
  obtain rfl : goesOn = true := decides.mpr line.2
  obtain ⟨ret, pr, intact, same, fields, isRet, done⟩ :=
    of.request.parse_accepted of.sized cut of.http rfl (.newRequest port) targeted of.linesRead
  have fields : pr.fields = latest (fieldsRead p.lines p.body) :=
    fields.trans (foldl_assign_nil _)
  rcases isRet with ⟨rfl, colons⟩ | ⟨rfl, never⟩
  · have relative : parse'.host = none ∧ p.method ≠ ascii "CONNECT" ↔
        p.method = ascii "GET" ∧ memmem (unlayered p.address) (ascii "://") = none := by
      rcases of.known with isGet | isConnect
      · rw [cut.parseTarget_eq, isGet, if_neg (by decide)] at targeted
        have other : ascii "GET" ≠ ascii "CONNECT" := by decide
        obtain ⟨-, ⟨hostless, absent, -⟩ | ⟨hosted, result⟩⟩ :=
          getRead_result (Except.ok.inj targeted) parse' rfl
        · simp [isGet, hostless, absent, other]
        · simp only [isGet, hosted, false_and, true_and, false_iff]
          cases result with
          | absolute _ _ _ _ found _ _ _ _ _ _ _ => simp [found]
          | relative _ _ _ _ isHost _ _ =>
              intro absent
              rw [getRead, absent] at targeted
              obtain ⟨rfl, -⟩ := Prod.mk.inj (Except.ok.inj targeted)
              simp at hosted
      · have other : ascii "CONNECT" ≠ ascii "GET" := by decide
        simp [isConnect, other]
    rw [done]
    by_cases isRelative : parse'.host = none ∧ p.method ≠ ascii "CONNECT"
    · obtain ⟨isGet, absent⟩ := relative.mp isRelative
      rw [if_pos ⟨rfl, isRelative⟩]
      by_cases present : ascii "Host" ∈ keys pr.fields
      · obtain ⟨⟨key, value⟩, member, isHost⟩ := List.mem_map.mp present
        subst isHost
        rw [fields, mem_keys_latest] at present
        exact ⟨_, .inl ⟨colons, fun _ _ => present, parseHost_some intact.distinct member, fields⟩⟩
      · refine ⟨_, .inr ⟨fun both => present ?_, parseHost_none present⟩⟩
        rw [fields, mem_keys_latest]
        exact both.2 isGet absent
    · rw [if_neg fun both => isRelative both.2]
      exact ⟨pr, .inl ⟨colons, fun isGet absent => absurd (relative.mpr ⟨isGet, absent⟩) isRelative,
        rfl, fields⟩⟩
  · rw [if_neg fun both => by simp at both] at done
    exact ⟨pr, .inr ⟨fun both => never both.1, done⟩⟩

theorem Parts.Of.line_of_accepted (of : p.Of buf)
    (accepted : parsedRequestParse errno (newRequest port) buf = .ok (0, pr)) :
    Accepted errno p.method p.address p.after := by
  obtain ⟨block, start, fullAddr, version, cut⟩ := of.exists_cut
  obtain ⟨⟨parse', goesOn⟩, targeted, decides, -⟩ :=
    @parseTarget_read errno (withLine (newRequest port) block start version) _ _ _ _ _ rfl rfl
      cut.pointsMethod cut.pointsAddress
  cases goesOn with
  | true => exact ⟨of.http, decides.mp rfl⟩
  | false =>
      rw [of.request.parse_refused of.sized cut of.http rfl targeted] at accepted
      simp at accepted

theorem Parts.Of.accepts (of : p.Of buf) (colons : ColonComes p.lines p.body)
    (valid : Valid errno p (keys (fieldsRead p.lines p.body))) (port : Port) :
    ∃ pr, parsedRequestParse errno (newRequest port) buf = .ok (0, pr) ∧
      pr.fields = latest (fieldsRead p.lines p.body) := by
  obtain ⟨pr, ⟨-, -, accepted⟩ | ⟨refused, -⟩⟩ := of.parse valid.1 port
  · exact ⟨pr, accepted⟩
  · exact absurd ⟨colons, valid.2⟩ refused

end Accepted

end ProxyServer.ProxyParse
