import ProxyServer.ProxyParse.Parse

namespace ProxyServer.ProxyParse
open Lib Lib.Block Lib.Lines

structure View where
  method : Option Bytes
  protocol : Option Bytes
  host : Option Bytes
  port : Port
  path : Option Bytes
  version : Option Bytes
  headers : List (Bytes × Bytes)
  deriving DecidableEq

namespace ParsedRequest

def hostText (pr : ParsedRequest) : Option Bytes :=
  match pr.host with
  | none => none
  | some (.inBuf i) => (pr.textAt (some i)).toOption
  | some (.owned name) => some name

def view (pr : ParsedRequest) : View where
  method := (pr.textAt pr.method).toOption
  protocol := pr.protocol
  host := pr.hostText
  port := pr.port
  path := pr.path
  version := (pr.textAt pr.version).toOption
  headers := pr.fields

theorem textAt_of_points {pr : ParsedRequest} {block s : Bytes} {i : Nat} (buf : pr.buf = some block)
    (points : Points block i s) : pr.textAt (some i) = .ok s := by
  simp only [textAt, buf, points.stringAt]

end ParsedRequest

def newRequest (port : Port) : ParsedRequest := { parsedRequestCreate 0 with port }

theorem Intact.newRequest (port : Port) : Intact (newRequest port) :=
  (Intact.create 0).congr rfl rfl

def Sized (buf : Bytes) : Prop := ¬ (buf.length < MIN_REQ_LEN ∨ buf.length > MAX_REQ_LEN)

section Ends

variable {errno : Int} {parse : ParsedRequest} {buf first body method address after : Bytes}
  {lines : List Bytes}

def withLine (parse : ParsedRequest) (block : Bytes) (start version : Nat) : ParsedRequest :=
  { parse with buf := some block, method := some start, version := some version }

structure Cut (first method address after : Bytes) (block : Bytes) (start fullAddr version : Nat) :
    Prop where
  pointsMethod : Points block start method
  pointsAddress : Points block fullAddr address
  pointsVersion : Points block version after.tail
  early : start + method.length < fullAddr
  parsed : ∀ parse, parseRequestLine parse first = .ok (
    if HttpVersion after then (withLine parse block start version, some fullAddr)
    else ((withLine parse block start version).release, none))

theorem exists_cut (string : 0 ∉ first) (words : requestWords first = some (method, address, after))
    (spaced : after ≠ []) (known : method = ascii "GET" ∨ method = ascii "CONNECT") :
    ∃ block start fullAddr version,
      Cut first method address after block start fullAddr version := by
  obtain ⟨block, start, fullAddr, version, isMethod, isAddress, isVersion, early, parsed⟩ :=
    parseRequestLine_some string words spaced known
  exact ⟨block, start, fullAddr, version, isMethod, isAddress, isVersion, early, parsed⟩

theorem HttpVersion.spaced (http : HttpVersion after) : after ≠ [] := by
  rintro rfl
  exact absurd (List.prefix_nil.mp http) (by decide)

theorem IsRequest.parse_unknown (request : IsRequest buf first lines body) (sized : Sized buf)
    (unknown : ∀ method address after, requestWords first = some (method, address, after) →
      method ≠ ascii "GET" ∧ method ≠ ascii "CONNECT") :
    ∃ method, ∀ errno parse, parse.buf = none →
      parsedRequestParse errno parse buf = .ok (-1, { parse with method }.release) := by
  obtain ⟨method, refused⟩ := parseRequestLine_refused request.first.2 unknown
  refine ⟨method, fun errno parse fresh => ?_⟩
  rw [request.parse_eq fresh sized, parseLines, refused]
  rfl

theorem IsRequest.parse_noVersion (request : IsRequest buf first lines body) (sized : Sized buf)
    (words : requestWords first = some (method, address, []))
    (known : method = ascii "GET" ∨ method = ascii "CONNECT") (fresh : parse.buf = none) :
    parsedRequestParse errno parse buf = .error .outOfBounds := by
  rw [request.parse_eq fresh sized, parseLines,
    parseRequestLine_fault request.first.2 words known]
  rfl

section Cut

variable {block : Bytes} {start fullAddr version : Nat}

theorem IsRequest.parse_notHttp (request : IsRequest buf first lines body) (sized : Sized buf)
    (cut : Cut first method address after block start fullAddr version)
    (other : ¬ HttpVersion after) (fresh : parse.buf = none) :
    parsedRequestParse errno parse buf =
      .ok (-1, (withLine parse block start version).release) := by
  rw [request.parse_eq fresh sized, parseLines, cut.parsed, if_neg other]
  rfl

theorem IsRequest.parse_refused (request : IsRequest buf first lines body) (sized : Sized buf)
    (cut : Cut first method address after block start fullAddr version)
    (http : HttpVersion after) (fresh : parse.buf = none) {parse' : ParsedRequest}
    (refused : parseTarget errno (withLine parse block start version) fullAddr =
      .ok (parse', false)) :
    parsedRequestParse errno parse buf = .ok (-1, parse') := by
  rw [request.parse_eq fresh sized, parseLines, cut.parsed, if_pos http]
  simp only [ok_bind, refused]
  rfl

theorem Cut.parseTarget_eq (cut : Cut first method address after block start fullAddr version) :
    parseTarget errno (withLine parse block start version) fullAddr =
      if method = ascii "CONNECT" then
        parseConnect (withLine parse block start version) block fullAddr
      else .ok (getRead errno (withLine parse block start version) address) := by
  rw [ProxyParse.parseTarget_eq rfl rfl cut.pointsMethod]
  congr 1
  exact parseGet_eq cut.pointsAddress

theorem IsRequest.parse_accepted (request : IsRequest buf first lines body) (sized : Sized buf)
    (cut : Cut first method address after block start fullAddr version)
    (http : HttpVersion after) (fresh : parse.buf = none) (intact : Intact parse)
    {parse' : ParsedRequest}
    (targeted : parseTarget errno (withLine parse block start version) fullAddr =
      .ok (parse', true))
    (reads : LinesRead lines body) :
    ∃ ret pr, Intact pr ∧ SameLine parse' pr ∧
      pr.fields = (fieldsRead lines body).foldl assign parse.fields ∧
      (ret = 0 ∧ ColonComes lines body ∨ ret = -1 ∧ ¬ ColonComes lines body) ∧
      parsedRequestParse errno parse buf =
        if ret = 0 ∧ parse'.host = none ∧ method ≠ ascii "CONNECT" then parseHost pr
        else .ok (ret, pr) := by
  have parsed := cut.parsed parse
  rw [if_pos http] at parsed
  obtain ⟨result, isResult, decides, headers, headerslen, keeps⟩ :=
    @parseTarget_read errno (withLine parse block start version) _ _ _ _ _ rfl rfl cut.pointsMethod
      cut.pointsAddress
  obtain rfl := Except.ok.inj (targeted.symm.trans isResult)
  have fields : parse'.fields = parse.fields := congrArg liveFields headers
  have named : parse'.host = none → parse'.textAt parse'.method = .ok method := by
    intro noHost
    obtain ⟨isBuf, isMethod⟩ := keeps rfl noHost
    rw [show parse'.method = some start from isMethod]
    exact ParsedRequest.textAt_of_points isBuf cut.pointsMethod
  rw [request.parse_eq fresh sized, ← fields]
  exact request.parseLines_eq (intact.congr headers headerslen) reads parsed targeted named

end Cut

end Ends

end ProxyServer.ProxyParse
