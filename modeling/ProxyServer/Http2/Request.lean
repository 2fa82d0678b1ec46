import ProxyServer.Http2.Stream

namespace ProxyServer.Http2
open StreamRequest

structure DataFrame where
  chunks : List Bytes
  padding : Nat

def fieldValue (fields : List Field) (name : Bytes) : Option Bytes :=
  (fields.reverse.find? (·.1 = name)).map (·.2)

/-- A request: its first header block, its `DATA` frames, and the trailing block if there is one. -/
structure Http2Request where
  fields : List Field
  hasMethod : fieldValue fields (ascii ":method") ≠ none
  blockLength : Nat
  blockNonempty : 0 < blockLength
  frames : List DataFrame
  trailers : Option (List Field)
  trailersRegular : ∀ fields, trailers = some fields → ∀ f ∈ fields, isPseudo f.1 = false

namespace DataFrame

def bytes (frame : DataFrame) : Bytes := frame.chunks.flatten

def chunkCallbacks (frame : DataFrame) (endStream : Bool) : List Callback :=
  frame.chunks.map (.dataChunk endStream)

def callbacks (frame : DataFrame) (endStream : Bool) : List Callback :=
  frame.chunkCallbacks endStream ++
    [.frameRecv ⟨.data, endStream, false, frame.bytes.length + frame.padding⟩]

end DataFrame

def blockCallbacks (fields : List Field) (length : Nat) (endStream : Bool) : List Callback :=
  .beginHeaders :: fields.map (fun f => .header f.1 f.2) ++
    [.frameRecv ⟨.headers, endStream, true, length⟩]

def framesCallbacks (endStream : Bool) : List DataFrame → List Callback
  | [] => []
  | [frame] => frame.callbacks endStream
  | frame :: frames => frame.callbacks false ++ framesCallbacks endStream frames

namespace Http2Request

def method (r : Http2Request) : Option Bytes := fieldValue r.fields (ascii ":method")

def path (r : Http2Request) : Option Bytes := fieldValue r.fields (ascii ":path")

def authority (r : Http2Request) : Option Bytes := fieldValue r.fields (ascii ":authority")

def body (r : Http2Request) : Bytes := r.frames.flatMap (·.bytes)

def regular (r : Http2Request) : List Field := r.fields.filter fun f => !isPseudo f.1

def mainCallbacks (r : Http2Request) : List Callback :=
  blockCallbacks r.fields r.blockLength (r.frames.isEmpty && r.trailers.isNone) ++
    framesCallbacks r.trailers.isNone r.frames

def callbacks (r : Http2Request) : List Callback :=
  r.mainCallbacks ++ r.trailers.elim [] fun fields => blockCallbacks fields r.blockLength true

def translated (r : Http2Request) (method path authority : Bytes) : Bytes :=
  method ++ ascii " " ++ path ++ ascii " HTTP/1.1\r\n" ++
    ascii "Host: " ++ authority ++ ascii "\r\n" ++
    r.regular.flatMap headerLine ++ ascii "\r\n" ++ r.body

end Http2Request

def Callback.field : Callback → Option Field
  | .header name value => some (name, value)
  | .beginHeaders | .frameRecv _ | .dataChunk _ _ => none

def Callback.chunk : Callback → Bytes
  | .dataChunk _ data => data
  | .beginHeaders | .header _ _ | .frameRecv _ => []

def translatedNames : List Bytes := [ascii ":method", ascii ":path", ascii ":authority"]

theorem fieldValue_concat (fields : List Field) (f : Field) (name : Bytes) :
    fieldValue (fields ++ [f]) name = if f.1 = name then some f.2 else fieldValue fields name := by
  rw [fieldValue, fieldValue, List.reverse_concat, List.find?_cons]
  by_cases same : f.1 = name <;> simp [same]

namespace StreamRequest

def pseudo (r : StreamRequest) (name : Bytes) : Option Bytes :=
  if name = ascii ":method" then r.method
  else if name = ascii ":path" then r.path
  else if name = ascii ":authority" then r.authority
  else none

theorem translated_isPseudo : ∀ name ∈ translatedNames, isPseudo name = true := by decide

theorem onHeader_pseudo (r : StreamRequest) (f : Field) {name : Bytes}
    (known : name ∈ translatedNames) :
    (r.onHeader f.1 f.2).pseudo name = if f.1 = name then some f.2 else r.pseudo name := by
  have distinct : ascii ":path" ≠ ascii ":method" ∧ ascii ":authority" ≠ ascii ":method" ∧
      ascii ":authority" ≠ ascii ":path" := by decide
  obtain ⟨pathMethod, authorityMethod, authorityPath⟩ := distinct
  unfold onHeader
  cases kind : isPseudo f.1 with
  | false =>
      have other : f.1 ≠ name := by
        rintro rfl
        simp [translated_isPseudo _ known] at kind
      simp only [Bool.false_eq_true, if_false, if_neg other]
      rfl
  | true =>
      simp only [if_true, pseudo]
      simp only [translatedNames, List.mem_cons, List.not_mem_nil, or_false] at known
      rcases known with rfl | rfl | rfl
      · split_ifs <;> simp_all
      · split_ifs <;> simp_all
      · split_ifs <;> simp_all

theorem onHeader_requestBuf (r : StreamRequest) (name value : Bytes) :
    (r.onHeader name value).requestBuf =
      if isPseudo name then r.requestBuf else r.requestBuf ++ headerLine (name, value) := by
  unfold onHeader
  split_ifs <;> rfl

theorem onHeader_frame (r : StreamRequest) (name value : Bytes) :
    let t := r.onHeader name value
    t.headers = r.headers ∧ t.body = r.body ∧ t.requestComplete = r.requestComplete := by
  unfold onHeader
  split_ifs <;> exact ⟨rfl, rfl, rfl⟩

theorem foldl_receive (r : StreamRequest) {callbacks : List Callback}
    (noBegin : .beginHeaders ∉ callbacks) :
    let t := callbacks.foldl receive r
    let fields := callbacks.filterMap Callback.field
    (∀ name ∈ translatedNames, t.pseudo name = (fieldValue fields name).or (r.pseudo name)) ∧
      t.requestBuf =
        r.requestBuf ++ (fields.filter fun f => !isPseudo f.1).flatMap headerLine ∧
      t.headers = r.headers ∧
      t.body = r.body ++ callbacks.flatMap Callback.chunk ∧
      t.requestComplete = (r.requestComplete || callbacks.any Callback.completes) := by
  induction callbacks using List.reverseRecOn with
  | nil => simp [fieldValue]
  | append_singleton callbacks callback ih =>
      simp only [List.mem_append, List.mem_singleton, not_or] at noBegin
      obtain ⟨names, buffer, headers, body, complete⟩ := ih noBegin.1
      simp only [List.foldl_append, List.foldl_cons, List.foldl_nil, List.filterMap_append,
        List.flatMap_append, List.any_append]
      generalize callbacks.foldl receive r = t at *
      cases callback with
      | beginHeaders => exact absurd rfl noBegin.2
      | header name value =>
          obtain ⟨headers', body', complete'⟩ := t.onHeader_frame name value
          refine ⟨?_, ?_, headers'.trans headers, ?_, ?_⟩
          · intro known member
            have one := t.onHeader_pseudo (name, value) member
            simp only [receive, one, List.filterMap_cons, Callback.field, List.filterMap_nil,
              fieldValue_concat, names known member]
            split <;> rfl
          · simp only [receive, onHeader_requestBuf, buffer, List.filterMap_cons, Callback.field,
              List.filterMap_nil, List.filter_append, List.flatMap_append]
            cases kind : isPseudo name <;> simp [kind]
          · simp [receive, body', body, Callback.chunk]
          · simp [receive, complete', complete, Callback.completes]
      | frameRecv frame =>
          rw [show [Callback.frameRecv frame].filterMap Callback.field = [] from rfl,
            List.append_nil]
          refine ⟨names, buffer, headers, ?_, ?_⟩
          · simp [receive, onFrameRecv, body, Callback.chunk]
          · simp [receive, onFrameRecv, complete, Callback.completes, Bool.or_assoc]
      | dataChunk endStream data =>
          rw [show [Callback.dataChunk endStream data].filterMap Callback.field = [] from rfl,
            List.append_nil]
          refine ⟨names, buffer, headers, ?_, ?_⟩
          · simp [receive, onDataChunk, body, Callback.chunk]
          · simp [receive, onDataChunk, complete, Callback.completes, Bool.or_assoc]

end StreamRequest

theorem blockCallbacks_eq (fields : List Field) (length : Nat) (endStream : Bool) :
    blockCallbacks fields length endStream =
      .beginHeaders :: (fields.map (fun f => .header f.1 f.2) ++
        [.frameRecv ⟨.headers, endStream, true, length⟩]) := rfl

theorem field_header (fields : List Field) :
    (fields.map fun f => Callback.header f.1 f.2).filterMap Callback.field = fields := by
  rw [List.filterMap_map]
  exact List.filterMap_some

theorem framesCallbacks_data (endStream : Bool) (frames : List DataFrame) :
    ∀ callback ∈ framesCallbacks endStream frames,
      callback ≠ .beginHeaders ∧ callback.field = none := by
  induction frames with
  | nil => simp [framesCallbacks]
  | cons frame frames ih =>
      have one (ending : Bool) : ∀ callback ∈ frame.callbacks ending,
          callback ≠ .beginHeaders ∧ callback.field = none := by
        simp only [DataFrame.callbacks, DataFrame.chunkCallbacks, List.mem_append, List.mem_map,
          List.mem_singleton]
        rintro _ (⟨data, -, rfl⟩ | rfl) <;> simp [Callback.field]
      cases frames with
      | nil => exact one endStream
      | cons next frames =>
          simp only [framesCallbacks, List.mem_append] at ih ⊢
          rintro callback (here | later)
          · exact one false callback here
          · exact ih callback later

theorem DataFrame.callbacks_chunk (frame : DataFrame) (endStream : Bool) :
    (frame.callbacks endStream).flatMap Callback.chunk = frame.bytes := by
  have chunks : (frame.chunkCallbacks endStream).flatMap Callback.chunk = frame.bytes := by
    rw [chunkCallbacks, List.flatMap_map, bytes]
    exact List.flatMap_id'
  rw [callbacks, List.flatMap_append, chunks]
  simp [Callback.chunk]

theorem framesCallbacks_chunk (endStream : Bool) (frames : List DataFrame) :
    (framesCallbacks endStream frames).flatMap Callback.chunk = frames.flatMap (·.bytes) := by
  induction frames with
  | nil => rfl
  | cons frame frames ih =>
      cases frames with
      | nil => simp [framesCallbacks, DataFrame.callbacks_chunk]
      | cons next frames =>
          rw [framesCallbacks, List.flatMap_append, DataFrame.callbacks_chunk, ih,
            List.flatMap_cons (x := frame)]
          simp

theorem DataFrame.callbacks_completes (frame : DataFrame) (endStream : Bool) :
    (frame.callbacks endStream).any Callback.completes = endStream := by
  rw [callbacks, List.any_append]
  cases endStream with
  | false => simp [chunkCallbacks, Callback.completes, Frame.endsRequest]
  | true => simp [Callback.completes, Frame.endsRequest]

theorem framesCallbacks_completes (endStream : Bool) (frames : List DataFrame) :
    (framesCallbacks endStream frames).any Callback.completes =
      (endStream && !frames.isEmpty) := by
  induction frames with
  | nil => simp [framesCallbacks]
  | cons frame frames ih =>
      cases frames with
      | nil => simp [framesCallbacks, DataFrame.callbacks_completes]
      | cons next frames => simp [framesCallbacks, DataFrame.callbacks_completes, ih]

namespace Http2Request

variable {r : Http2Request}

def rest (r : Http2Request) : List Callback :=
  r.fields.map (fun f => .header f.1 f.2) ++
    .frameRecv ⟨.headers, r.frames.isEmpty && r.trailers.isNone, true, r.blockLength⟩ ::
      framesCallbacks r.trailers.isNone r.frames

theorem mainCallbacks_eq (r : Http2Request) : r.mainCallbacks = .beginHeaders :: r.rest := by
  simp [mainCallbacks, blockCallbacks, rest]

theorem rest_noBegin (r : Http2Request) : Callback.beginHeaders ∉ r.rest := by
  simp only [rest, List.mem_append, List.mem_map, List.mem_cons, not_or]
  refine ⟨by simp, by simp, ?_⟩
  intro inside
  exact (framesCallbacks_data _ _ _ inside).1 rfl

theorem rest_fields (r : Http2Request) : r.rest.filterMap Callback.field = r.fields := by
  have data : (framesCallbacks r.trailers.isNone r.frames).filterMap Callback.field = [] :=
    List.filterMap_eq_nil_iff.mpr fun callback inside => (framesCallbacks_data _ _ _ inside).2
  rw [rest, List.filterMap_append, field_header, List.filterMap_cons]
  simp [Callback.field, data]

theorem rest_body (r : Http2Request) : r.rest.flatMap Callback.chunk = r.body := by
  have headers : (r.fields.map fun f => Callback.header f.1 f.2).flatMap Callback.chunk = [] := by
    rw [List.flatMap_map, List.flatMap_eq_nil_iff]
    exact fun _ _ => rfl
  rw [rest, List.flatMap_append, headers, List.flatMap_cons, framesCallbacks_chunk]
  rfl

theorem rest_completes (r : Http2Request) :
    r.rest.any Callback.completes = r.trailers.isNone := by
  have headers :
      (r.fields.map fun f => Callback.header f.1 f.2).any Callback.completes = false := by
    simp [Callback.completes]
  have long : (r.blockLength == 0) = false := beq_false_of_ne r.blockNonempty.ne'
  rw [rest, List.any_append, headers, List.any_cons, framesCallbacks_completes]
  simp only [Callback.completes, Frame.endsRequest, long]
  cases r.frames.isEmpty <;> cases r.trailers.isNone <;> rfl

theorem foldl_main (r : Http2Request) :
    let t := r.mainCallbacks.foldl receive fresh
    t.method = r.method ∧ t.path = r.path ∧ t.authority = r.authority ∧
      t.headers = [] ∧ t.body = r.body ∧ t.requestComplete = r.trailers.isNone := by
  obtain ⟨names, -, headers, body, complete⟩ := foldl_receive fresh r.rest_noBegin
  rw [rest_fields] at names
  have start : r.mainCallbacks.foldl receive fresh = r.rest.foldl receive fresh := by
    rw [mainCallbacks_eq]
    rfl
  rw [start]
  refine ⟨?_, ?_, ?_, headers, body.trans r.rest_body, complete.trans r.rest_completes⟩
  · exact (names (ascii ":method") (by decide)).trans (Option.or_none ..)
  · exact (names (ascii ":path") (by decide)).trans (Option.or_none ..)
  · exact (names (ascii ":authority") (by decide)).trans (Option.or_none ..)

end Http2Request

structure Http2Stream.Builds (s : Http2Stream) : Prop where
  requestComplete : s.requestComplete = true
  responseComplete : s.responseComplete = false
  state : s.upstreamState = .opening .sendingRequest
  request : s.upstreamRequest = none

instance (s : Http2Stream) : Decidable s.Builds :=
  decidable_of_iff (s.requestComplete = true ∧ s.responseComplete = false ∧
      s.upstreamState = .opening .sendingRequest ∧ s.upstreamRequest = none)
    ⟨fun ⟨complete, response, state, request⟩ => ⟨complete, response, state, request⟩,
      fun builds => ⟨builds.requestComplete, builds.responseComplete, builds.state,
        builds.request⟩⟩

theorem Http2Stream.Builds.process {s : Http2Stream} (builds : s.Builds) (port : UInt16)
    (round : Round) : s.process port round = s.sendRequest round.writes := by
  simp [Http2Stream.process, builds.requestComplete, builds.responseComplete, builds.state]

theorem Http2Stream.Builds.sendRequest {s : Http2Stream} (builds : s.Builds)
    (connected : s.upstreamSsl = true) {request : Bytes} (built : s.build = some request)
    (writes : List UpstreamWrite) :
    ∃ result, s.sendRequest writes = some result ∧
      result.stream.upstreamRequest = some request := by
  simp only [Http2Stream.sendRequest, builds.request, built, Option.none_or,
    Option.bind_eq_bind, Option.bind_some, connected, Bool.true_eq_false, and_false, if_false]
  split <;> exact ⟨_, rfl, rfl⟩

theorem cstr_eq_self {s : Bytes} : cstr s = s ↔ 0 ∉ s := by
  constructor
  · intro same
    rw [← same]
    exact zero_notMem_cstr s
  · exact cstr_of_string

theorem cstr_length_le (s : Bytes) : (cstr s).length ≤ s.length :=
  (List.takeWhile_prefix _).length_le

theorem cstr_eq_of_length {s : Bytes} (whole : (cstr s).length = s.length) : cstr s = s :=
  (List.takeWhile_prefix _).eq_of_length whole

theorem headerLines_eq_nil {fields : List Field} :
    fields.flatMap headerLine = [] ↔ fields = [] := by
  cases fields with
  | nil => simp
  | cons f fields =>
      have line : headerLine f ≠ [] := by simp [headerLine, ascii]
      simp [line]

theorem built_eq_iff (r : Http2Request) (method path authority : Bytes) :
    cstr method ++ ascii " " ++ cstr path ++ ascii " HTTP/1.1\r\n" ++ ascii "Host: " ++
        cstr authority ++ ascii "\r\n" ++ [] ++ ascii "\r\n" ++ r.body =
      r.translated method path authority ↔
      r.regular = [] ∧ 0 ∉ method ∧ 0 ∉ path ∧ 0 ∉ authority := by
  constructor
  · intro same
    have length := congrArg List.length same
    have shortMethod := cstr_length_le method
    have shortPath := cstr_length_le path
    have shortAuthority := cstr_length_le authority
    simp only [Http2Request.translated, List.length_append, List.length_nil] at length
    have lines : (r.regular.flatMap headerLine).length = 0 := by omega
    exact ⟨headerLines_eq_nil.mp (List.length_eq_zero_iff.mp lines),
      cstr_eq_self.mp (cstr_eq_of_length (by omega)),
      cstr_eq_self.mp (cstr_eq_of_length (by omega)),
      cstr_eq_self.mp (cstr_eq_of_length (by omega))⟩
  · intro plain
    obtain ⟨regular, wholeMethod, wholePath, wholeAuthority⟩ := plain
    rw [Http2Request.translated, regular, cstr_of_string wholeMethod, cstr_of_string wholePath,
      cstr_of_string wholeAuthority]
    rfl

theorem translated_iff {r : Http2Request} (whole : r.trailers = none)
    {method path authority : Bytes}
    (isMethod : r.method = some method) (isPath : r.path = some path)
    (isAuthority : r.authority = some authority) {s : Http2Stream}
    (holds : s.toStreamRequest = r.callbacks.foldl receive fresh) (builds : s.Builds)
    (connected : s.upstreamSsl = true) (port : UInt16) (round : Round) :
    ∃ result, s.process port round = some result ∧
      (result.stream.upstreamRequest = some (r.translated method path authority) ↔
        r.regular = [] ∧ 0 ∉ method ∧ 0 ∉ path ∧ 0 ∉ authority) := by
  have main : r.callbacks = r.mainCallbacks := by simp [Http2Request.callbacks, whole]
  obtain ⟨keptMethod, keptPath, keptAuthority, headers, body, -⟩ := r.foldl_main
  rw [← main, ← holds] at keptMethod keptPath keptAuthority headers body
  have built : s.build = some (cstr method ++ ascii " " ++ cstr path ++
      ascii " HTTP/1.1\r\n" ++ ascii "Host: " ++ cstr authority ++ ascii "\r\n" ++ [] ++
      ascii "\r\n" ++ r.body) := by
    simp only [build, keptMethod, keptPath, keptAuthority, isMethod, isPath, isAuthority, headers,
      body, Option.bind_eq_bind, Option.bind_some]
  obtain ⟨result, sent, request⟩ := builds.sendRequest connected built round.writes
  refine ⟨result, by rw [builds.process, sent], ?_⟩
  rw [request, Option.some.injEq]
  exact built_eq_iff r method path authority

def plainRequest : Http2Request where
  fields := [(ascii ":method", ascii "GET"), (ascii ":path", ascii "/"),
    (ascii ":authority", ascii "a")]
  hasMethod := by decide
  blockLength := 20
  blockNonempty := by decide
  frames := []
  trailers := none
  trailersRegular := by simp

def acceptRequest : Http2Request :=
  { plainRequest with
    fields := plainRequest.fields ++ [(ascii "accept", ascii "text/html")]
    hasMethod := by decide }

def uploadRequest : Http2Request :=
  { plainRequest with
    fields := [(ascii ":method", ascii "POST"), (ascii ":path", ascii "/u"),
      (ascii ":authority", ascii "a")]
    hasMethod := by decide
    frames := [⟨[ascii "A", ascii "B"], 0⟩] }

def connectedStream (r : Http2Request) : Http2Stream :=
  { Http2Stream.fresh with
    toStreamRequest := r.callbacks.foldl receive fresh
    upstreamFd := true
    upstreamSsl := true
    upstreamState := .opening .sendingRequest }

def someRound : Round := ⟨⟨true, true, true, true, none, .ok, true, false⟩, [], .again⟩

theorem translated_iff_upload :
    ∃ result, (connectedStream uploadRequest).process 443 someRound = some result ∧
      (result.stream.upstreamRequest =
          some (uploadRequest.translated (ascii "POST") (ascii "/u") (ascii "a")) ↔
        uploadRequest.regular = [] ∧ 0 ∉ ascii "POST" ∧ 0 ∉ ascii "/u" ∧ 0 ∉ ascii "a") :=
  translated_iff rfl (by decide) (by decide) (by decide) rfl ⟨by decide, rfl, rfl, rfl⟩ rfl 443
    someRound

theorem accept_dropped :
    ((connectedStream acceptRequest).process 443 someRound).map (·.stream.upstreamRequest) =
        some (some (ascii "GET / HTTP/1.1\r\nHost: a\r\n\r\n")) ∧
      acceptRequest.translated (ascii "GET") (ascii "/") (ascii "a") =
        ascii "GET / HTTP/1.1\r\nHost: a\r\naccept: text/html\r\n\r\n" ∧
      ascii "GET / HTTP/1.1\r\nHost: a\r\n\r\n" ≠
        ascii "GET / HTTP/1.1\r\nHost: a\r\naccept: text/html\r\n\r\n" := by
  decide +kernel

end ProxyServer.Http2
