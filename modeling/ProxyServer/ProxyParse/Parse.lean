import ProxyServer.ProxyParse.Target

namespace ProxyServer.ProxyParse
open Lib Lib.Block Lib.Lines

def MIN_REQ_LEN : Nat := 4

def MAX_REQ_LEN : Nat := 65535

def ParsedRequest.textAt (parse : ParsedRequest) (field : Option Nat) : Checked Bytes :=
  match parse.buf, field with
  | some buf, some i => stringAt buf i
  | _, _ => .error .nullPointer

def parseTarget (errno : Int) (parse : ParsedRequest) (fullAddr : Nat) :
    Checked (ParsedRequest × Bool) :=
  match parse.buf with
  | none => .error .nullPointer
  | some buf => do
      if (← parse.textAt parse.method) = ascii "CONNECT" then
        parseConnect parse buf fullAddr
      else
        parseGet errno parse buf fullAddr

def parseHost (parse : ParsedRequest) : Checked (Int × ParsedRequest) :=
  match parsedHeaderGet parse (ascii "Host") >>= (parse.headers[·]?) with
  | none => return (-1, parse.release)
  | some hostHdr => do
      let hostVal := hostHdr.value ++ [0]
      let whole ← stringAt hostVal 0
      if (← byteAt hostVal 0) = 91 then
        match ← strchr hostVal 0 93 with
        | none => return (0, { parse with host := some (.owned whole) })
        | some endBracket =>
            let port ← match ← strchr hostVal endBracket 58 with
              | none => pure parse.port
              | some colon => Port.owned <$> stringAt hostVal (colon + 1)
            let host ← copyAt hostVal 1 (endBracket - 1)
            return (0, { parse with host := some (.owned host), port })
      else
        match ← strchr hostVal 0 58 with
        | none => return (0, { parse with host := some (.owned whole) })
        | some colon =>
            let host ← copyAt hostVal 0 colon
            let port ← stringAt hostVal (colon + 1)
            return (0, { parse with host := some (.owned host), port := .owned port })

def parseLines (errno : Int) (parse : ParsedRequest) (tmpBuf line : Bytes) :
    Checked (Int × ParsedRequest) := do
  match ← parseRequestLine parse line with
  | (parse, none) => return (-1, parse)
  | (parse, some fullAddr) =>
      match ← parseTarget errno parse fullAddr with
      | (parse, false) => return (-1, parse)
      | (parse, true) =>
          let index ← deref (← strstr tmpBuf 0 crlf)
          let (ret, parse) ← headerLoop tmpBuf tmpBuf.length (index + 2) parse
          if ret = 0 ∧ parse.host = none then
            if (← parse.textAt parse.method) ≠ ascii "CONNECT" then
              return ← parseHost parse
          return (ret, parse)

def parsedRequestParse (errno : Int) (parse : ParsedRequest) (buf : Bytes) :
    Checked (Int × ParsedRequest) := do
  if parse.buf ≠ none then
    return (-1, parse)
  if buf.length < MIN_REQ_LEN ∨ buf.length > MAX_REQ_LEN then
    return (-1, parse)
  let tmpBuf := buf ++ [0]
  if (← strstr tmpBuf 0 (crlf ++ crlf)) = none then
    return (-1, parse)
  let index ← deref (← strstr tmpBuf 0 crlf)
  let line ← copyAt tmpBuf 0 index
  parseLines errno parse tmpBuf line

def hostRead (parse : ParsedRequest) (value : Bytes) : ParsedRequest :=
  { parse with
    host := some (.owned (hostOf value)), port := (portOf value).elim parse.port .owned }

theorem parseHost_none {parse : ParsedRequest} (absent : ascii "Host" ∉ keys parse.fields) :
    parseHost parse = .ok (-1, parse.release) := by
  rw [parseHost, slot_none absent]
  rfl

theorem parseHost_some {parse : ParsedRequest} {value : Bytes} (distinct : (keys parse.fields).Nodup)
    (member : (ascii "Host", value) ∈ parse.fields) :
    parseHost parse = .ok (0, hostRead parse (cstr value)) := by
  rw [parseHost, slot_some distinct member]
  have points := points_cstr value (Nat.zero_le _)
  rw [List.drop_zero] at points
  simp only [points.stringAt, ok_bind]
  generalize value ++ [0] = block at points ⊢
  generalize cstr value = value at points ⊢
  by_cases bracket : value.head? = some 91
  · rw [hostRead, hostOf, portOf, if_pos bracket, if_pos bracket]
    simp only [points.byteAt_head bracket, ok_bind, if_true]
    by_cases closed : 93 ∈ value
    · obtain ⟨inner, after, rfl, absent⟩ := List.eq_append_cons_of_mem closed
      obtain ⟨name, rfl⟩ : ∃ name, inner = 91 :: name := by
        cases inner with
        | nil => simp at bracket
        | cons c name => exact ⟨name, by simpa using bracket⟩
      have absentName : 93 ∉ name := fun inside => absent (List.mem_cons_of_mem _ inside)
      have isHost : (91 :: name ++ 93 :: after).tail.takeWhile (· != 93) = name :=
        (cut_at absentName after).1
      have isEnd : (91 :: name ++ 93 :: after).dropWhile (· != 93) = 93 :: after :=
        (cut_at absent after).2
      have pointsName : Points block 1 (name ++ 93 :: after) := points.drop (n := 1) (by simp)
      have copied := pointsName.copyAt (n := name.length) (by simp)
      rw [List.take_left] at copied
      have shorter : 0 + (91 :: name).length - 1 = name.length := by simp
      have pointsEnd := points.suffix
      simp only [points.strchr_found absent, ok_bind, shorter, copied, if_pos closed, isHost, isEnd]
      by_cases colon : 58 ∈ 93 :: after
      · obtain ⟨gap, port, split, absent'⟩ := List.eq_append_cons_of_mem colon
        rw [split] at pointsEnd ⊢
        have pointsPort := pointsEnd.suffix.drop (n := 1) (by simp)
        rw [List.drop_one, List.tail_cons] at pointsPort
        simp only [pointsEnd.strchr_found absent', ok_bind, pointsPort.stringAt,
          afterColon_append absent']
        rfl
      · have none : afterColon (93 :: after) = none := if_neg colon
        simp only [pointsEnd.strchr_absent colon, ok_bind, pure_bind, none]
        rfl
    · simp only [points.strchr_absent closed, ok_bind, if_neg closed]
      rfl
  · obtain ⟨first, notBracket, isFirst⟩ := points.byteAt_ne bracket (by decide)
    rw [hostRead, hostOf, portOf, if_neg bracket, if_neg bracket]
    simp only [isFirst, ok_bind, if_neg notBracket]
    by_cases colon : 58 ∈ value
    · obtain ⟨host, port, rfl, absent⟩ := List.eq_append_cons_of_mem colon
      have copied := points.copyAt (n := 0 + host.length) (by simp)
      rw [Nat.zero_add, List.take_left] at copied
      have pointsPort := (points.suffix).drop (n := 1) (by simp)
      rw [List.drop_one, List.tail_cons] at pointsPort
      simp only [points.strchr_found absent, ok_bind, Nat.zero_add, copied,
        (cut_at absent port).1, afterColon_append absent]
      rw [Nat.zero_add] at pointsPort
      simp only [pointsPort.stringAt, ok_bind]
      rfl
    · have none : afterColon value = none := if_neg colon
      simp only [points.strchr_absent colon, ok_bind, none, takeWhile_absent colon]
      rfl

theorem parseHost_accepted {parse pr : ParsedRequest} (distinct : (keys parse.fields).Nodup)
    (accepted : parseHost parse = .ok (0, pr)) :
    ∃ value, (ascii "Host", value) ∈ parse.fields ∧ pr = hostRead parse (cstr value) := by
  by_cases present : ascii "Host" ∈ keys parse.fields
  · obtain ⟨⟨key, value⟩, member, isHost⟩ := List.mem_map.mp present
    subst isHost
    rw [parseHost_some distinct member] at accepted
    exact ⟨value, member, by simpa using accepted.symm⟩
  · rw [parseHost_none present] at accepted
    simp at accepted

theorem parseHost_ok {parse : ParsedRequest} (distinct : (keys parse.fields).Nodup) :
    ∃ result, parseHost parse = .ok result := by
  by_cases present : ascii "Host" ∈ keys parse.fields
  · obtain ⟨⟨key, value⟩, member, isHost⟩ := List.mem_map.mp present
    subst isHost
    exact ⟨_, parseHost_some distinct member⟩
  · exact ⟨_, parseHost_none present⟩

section Target

variable {errno : Int} {parse : ParsedRequest} {buf method address : Bytes} {start fullAddr : Nat}

theorem parseTarget_eq (isBuf : parse.buf = some buf) (isMethod : parse.method = some start)
    (points : Points buf start method) :
    parseTarget errno parse fullAddr =
      if method = ascii "CONNECT" then parseConnect parse buf fullAddr
      else parseGet errno parse buf fullAddr := by
  have name : parse.textAt parse.method = .ok method := by
    simp only [ParsedRequest.textAt, isBuf, isMethod, points.stringAt]
  simp only [parseTarget, isBuf, name, ok_bind]

theorem parseTarget_read (isBuf : parse.buf = some buf) (isMethod : parse.method = some start)
    (pointsMethod : Points buf start method) (points : Points buf fullAddr address) :
    ∃ result, parseTarget errno parse fullAddr = .ok result ∧
      TargetRead parse (if method = ascii "CONNECT" then ConnectAccepted address
        else GetAccepted errno address) result := by
  rw [parseTarget_eq isBuf isMethod pointsMethod]
  split
  · exact parseConnect_read points
  · exact ⟨_, parseGet_eq points, getRead_read errno parse address⟩

end Target

structure IsRequest (buf first : Bytes) (lines : List Bytes) (body : Bytes) : Prop where
  text : buf = first ++ (crlf ++ (terminated lines ++ (crlf ++ body)))
  first : ¬ crlf <:+: first ∧ 0 ∉ first
  headers : ∀ line ∈ lines, HeaderLine line

theorem IsRequest.visible {buf first body : Bytes} {lines : List Bytes}
    (request : IsRequest buf first lines body) :
    cstr buf = first ++ (crlf ++ (terminated lines ++ (crlf ++ cstr body))) := by
  rw [request.text, cstr_append request.first.2, cstr_append (by decide),
    cstr_append (notMem_terminated request.headers), cstr_append (by decide)]

theorem IsRequest.ended {buf first body : Bytes} {lines : List Bytes}
    (request : IsRequest buf first lines body) : crlf ++ crlf <:+: cstr buf := by
  refine ⟨first ++ joined lines, cstr body, ?_⟩
  rw [request.visible]
  simp only [← List.append_assoc]
  rw [List.append_assoc first crlf, crlf_terminated]
  simp only [List.append_assoc]

theorem exists_request {buf : Bytes} (ended : crlf ++ crlf <:+: cstr buf) :
    ∃ first lines body, IsRequest buf first lines body := by
  obtain ⟨rest, found⟩ := Option.ne_none_iff_exists'.mp (mt memmem_eq_none.mp (not_not.mpr ended))
  obtain ⟨head, split⟩ := memmem_suffix found
  obtain ⟨body, starts⟩ := memmem_starts found
  obtain ⟨first, lines, isHead, clean⟩ := exists_lines head
  obtain ⟨hidden, whole⟩ : cstr buf <+: buf := List.takeWhile_prefix _
  have string : 0 ∉ head := fun inside =>
    zero_notMem_cstr buf (split ▸ List.mem_append_left _ inside)
  rw [isHead] at string
  refine ⟨first, lines, body ++ hidden, ?_, ⟨clean first (by simp), ?_⟩, ?_⟩
  · rw [← whole, ← split, ← starts, isHead]
    simp only [List.append_assoc]
    rw [← List.append_assoc (joined lines), ← crlf_terminated]
    simp only [List.append_assoc]
  · exact fun inside => string (List.mem_append_left _ inside)
  · intro line member
    refine ⟨?_, clean line (List.mem_cons_of_mem _ member), fun inside => string ?_⟩
    · -- Before an empty line there would be an earlier end of the head.
      rintro rfl
      obtain ⟨before, after, rfl⟩ := List.append_of_mem member
      have other : cstr buf = first ++ joined before ++ (crlf ++ crlf) ++
          (terminated after ++ (crlf ++ body)) := by
        rw [← split, ← starts, isHead, joined_append, joined_cons]
        simp only [List.append_assoc, List.nil_append]
        rw [← List.append_assoc (joined after), ← crlf_terminated]
        simp only [List.append_assoc]
      have early := memmem_first found split.symm other
      rw [isHead, joined_append, joined_cons] at early
      simp only [List.length_append, crlf, List.length_cons] at early
      omega
    · exact List.mem_append_right _
        (List.mem_flatMap.mpr ⟨line, member, List.mem_append_right _ inside⟩)

theorem IsRequest.drop {buf first body : Bytes} {lines : List Bytes}
    (request : IsRequest buf first lines body) :
    buf.drop (first.length + 2) = terminated lines ++ (crlf ++ body) := by
  have two : 2 = crlf.length := rfl
  rw [request.text, List.drop_length_add_append, two, List.drop_left]

theorem IsRequest.enough {buf first body : Bytes} {lines : List Bytes}
    (request : IsRequest buf first lines body) : lines.length < (buf ++ [0]).length := by
  have short := length_le_terminated lines
  rw [request.text]
  simp only [List.length_append, List.length_cons]
  omega

def Accepted (errno : Int) (method address after : Bytes) : Prop :=
  HttpVersion after ∧
    if method = ascii "CONNECT" then ConnectAccepted address else GetAccepted errno address

/-- An address of a method that the parser knows is followed by a space, and when the request line
is accepted the header lines end well. -/
def Reads (errno : Int) (first : Bytes) (lines : List Bytes) (body : Bytes) : Prop :=
  ∀ method address after, requestWords first = some (method, address, after) →
    method = ascii "GET" ∨ method = ascii "CONNECT" →
    after ≠ [] ∧ (Accepted errno method address after → LinesRead lines body)

section Parse

variable {errno : Int} {parse : ParsedRequest} {buf first body : Bytes} {lines : List Bytes}

theorem parse_refused (fresh : parse.buf = none)
    (refused : buf.length < MIN_REQ_LEN ∨ buf.length > MAX_REQ_LEN ∨
      ¬ crlf ++ crlf <:+: cstr buf) :
    parsedRequestParse errno parse buf = .ok (-1, parse) := by
  by_cases sized : buf.length < MIN_REQ_LEN ∨ buf.length > MAX_REQ_LEN
  · simp only [parsedRequestParse, fresh, if_pos sized]
    rfl
  · have absent := ((or_assoc.mpr refused).resolve_left sized)
    have points := points_cstr buf (Nat.zero_le _)
    rw [List.drop_zero] at points
    simp only [parsedRequestParse, fresh, if_neg sized, points.strstr, ok_bind,
      memmem_eq_none.mpr absent]
    rfl

theorem IsRequest.points (request : IsRequest buf first lines body) : Points (buf ++ [0]) 0
    (first ++ (crlf ++ (terminated lines ++ (crlf ++ cstr body)))) := by
  rw [← request.visible]
  exact points_cstr buf (Nat.zero_le _)

theorem IsRequest.strstr_crlf (request : IsRequest buf first lines body) :
    strstr (buf ++ [0]) 0 crlf = .ok (some first.length) := by
  rw [request.points.strstr, memmem_line request.first.1, Option.map_some, List.length_append,
    Nat.add_sub_cancel, Nat.zero_add]

theorem IsRequest.parse_eq (request : IsRequest buf first lines body) (fresh : parse.buf = none)
    (sized : ¬ (buf.length < MIN_REQ_LEN ∨ buf.length > MAX_REQ_LEN)) :
    parsedRequestParse errno parse buf = parseLines errno parse (buf ++ [0]) first := by
  obtain ⟨place, ended⟩ : ∃ place, strstr (buf ++ [0]) 0 (crlf ++ crlf) = .ok (some place) := by
    have inside := request.ended
    rw [request.visible] at inside
    obtain ⟨rest, isRest⟩ :=
      Option.ne_none_iff_exists'.mp (mt memmem_eq_none.mp (not_not.mpr inside))
    exact ⟨_, by rw [request.points.strstr, isRest, Option.map_some]⟩
  have copied := request.points.copyAt (n := first.length) (by simp)
  rw [List.take_left] at copied
  simp only [parsedRequestParse, fresh, if_neg sized, ended, request.strstr_crlf, ok_bind, deref,
    copied]
  rfl

theorem target_of_known (errno : Int) (parse : ParsedRequest) {method address after : Bytes}
    (string : 0 ∉ first) (words : requestWords first = some (method, address, after))
    (spaced : after ≠ [])
    (known : method = ascii "GET" ∨ method = ascii "CONNECT") (http : HttpVersion after) :
    ∃ parse' fullAddr result,
      parseRequestLine parse first = .ok (parse', some fullAddr) ∧
      parseTarget errno parse' fullAddr = .ok result ∧
      (result.2 = true ↔ Accepted errno method address after) ∧
      result.1.headers = parse.headers ∧ result.1.headerslen = parse.headerslen ∧
      (result.2 = true → result.1.host = none → result.1.textAt result.1.method = .ok method) := by
  obtain ⟨block, start, fullAddr, version, pointsMethod, pointsAddress, -, -, parsed⟩ :=
    parseRequestLine_some string words spaced known
  simp only [if_pos http] at parsed
  let parse' : ParsedRequest :=
    { parse with buf := some block, method := some start, version := some version }
  obtain ⟨result, targeted, decides, headers, headerslen, keeps⟩ :=
    @parseTarget_read errno parse' _ _ _ _ _ rfl rfl pointsMethod pointsAddress
  refine ⟨parse', fullAddr, result, parsed parse, targeted, ?_, headers, headerslen, ?_⟩
  · rw [decides, Accepted, and_iff_right http]
  · intro goesOn noHost
    obtain ⟨isBuf, isMethod⟩ := keeps goesOn noHost
    simp only [ParsedRequest.textAt, isBuf, isMethod, parse', pointsMethod.stringAt]

theorem IsRequest.parseLines_eq (request : IsRequest buf first lines body)
    {parse' parse'' : ParsedRequest} {fullAddr : Nat} {method : Bytes} (intact : Intact parse'')
    (read : LinesRead lines body)
    (parsed : parseRequestLine parse first = .ok (parse', some fullAddr))
    (targeted : parseTarget errno parse' fullAddr = .ok (parse'', true))
    (named : parse''.host = none → parse''.textAt parse''.method = .ok method) :
    ∃ ret pr, Intact pr ∧ SameLine parse'' pr ∧
      pr.fields = (fieldsRead lines body).foldl assign parse''.fields ∧
      (ret = 0 ∧ ColonComes lines body ∨ ret = -1 ∧ ¬ ColonComes lines body) ∧
      parseLines errno parse (buf ++ [0]) first =
        if ret = 0 ∧ parse''.host = none ∧ method ≠ ascii "CONNECT" then parseHost pr
        else .ok (ret, pr) := by
  obtain ⟨ret, pr, looped, intact', same, fields, isRet⟩ :=
    headerLoop_ok request.headers request.enough intact request.drop read
  refine ⟨ret, pr, intact', same, fields, isRet, ?_⟩
  have host : pr.host = parse''.host := by rw [same]
  simp only [parseLines, parsed, targeted, request.strstr_crlf, deref, looped, ok_bind, host]
  by_cases relative : ret = 0 ∧ parse''.host = none
  · have name : pr.textAt pr.method = .ok method := by
      rw [← named relative.2, same]
      rfl
    simp only [name, ok_bind, relative, and_self, true_and, if_true]
    rfl
  · rw [if_neg relative, if_neg fun both => relative ⟨both.1, both.2.1⟩]
    rfl

theorem IsRequest.parseLines_ok (request : IsRequest buf first lines body) (intact : Intact parse)
    (reads : Reads errno first lines body) :
    ∃ result, parseLines errno parse (buf ++ [0]) first = .ok result := by
  by_cases known : ∃ method address after, requestWords first = some (method, address, after) ∧
      (method = ascii "GET" ∨ method = ascii "CONNECT")
  · obtain ⟨method, address, after, words, known⟩ := known
    obtain ⟨spaced, linesRead⟩ := reads method address after words known
    by_cases http : HttpVersion after
    · obtain ⟨parse', fullAddr, ⟨parse'', accepted⟩, parsed, targeted, decides, headers, headerslen,
          named⟩ := target_of_known errno parse request.first.2 words spaced known http
      cases accepted with
      | false =>
          simp only [parseLines, parsed, targeted, ok_bind]
          exact ⟨_, rfl⟩
      | true =>
          have intact' : Intact parse'' := intact.congr headers headerslen
          obtain ⟨ret, pr, intact'', -, -, -, done⟩ :=
            request.parseLines_eq intact' (linesRead (decides.mp rfl)) parsed targeted (named rfl)
          rw [done]
          split
          · exact parseHost_ok intact''.distinct
          · exact ⟨_, rfl⟩
    · obtain ⟨block, start, fullAddr, version, -, -, -, -, parsed⟩ :=
        parseRequestLine_some request.first.2 words spaced known
      simp only [parseLines, parsed, ok_bind, if_neg http]
      exact ⟨_, rfl⟩
  · obtain ⟨method', parsed⟩ := parseRequestLine_refused request.first.2
      fun method address after words => not_or.mp fun known' =>
        known ⟨method, address, after, words, known'⟩
    simp only [parseLines, parsed, ok_bind]
    exact ⟨_, rfl⟩

theorem IsRequest.parseLines_fault (request : IsRequest buf first lines body)
    (intact : Intact parse) (unread : ¬ Reads errno first lines body) :
    ∃ fault ≠ .unfinished, parseLines errno parse (buf ++ [0]) first = .error fault := by
  simp only [Reads, not_forall] at unread
  obtain ⟨method, address, after, words, known, unread⟩ := unread
  rw [parseLines]
  by_cases spaced : after = []
  · subst spaced
    refine ⟨.outOfBounds, by decide, ?_⟩
    rw [parseRequestLine_fault request.first.2 words known]
    rfl
  · obtain ⟨accepted, linesUnread⟩ := Classical.not_imp.mp (not_and.mp unread spaced)
    obtain ⟨parse', fullAddr, ⟨parse'', goesOn⟩, parsed, targeted, decides, headers, headerslen, -⟩ :=
      target_of_known errno parse request.first.2 words spaced known accepted.1
    have isTrue : goesOn = true := decides.mpr accepted
    subst isTrue
    have intact' : Intact parse'' := intact.congr headers headerslen
    obtain ⟨fault, isFault, looped⟩ :=
      headerLoop_fault request.headers request.enough intact' request.drop linesUnread
    refine ⟨fault, isFault, ?_⟩
    simp only [parsed, targeted, request.strstr_crlf, deref, ok_bind, looped, error_bind]

def Safe (errno : Int) (buf : Bytes) : Prop :=
  buf.length < MIN_REQ_LEN ∨ buf.length > MAX_REQ_LEN ∨
    ∀ first lines body, IsRequest buf first lines body → Reads errno first lines body

/-- The parse of a new object always ends. It stays inside its blocks, and computes with no null
pointer, exactly on the inputs that are safe. -/
theorem parse_inside_iff (errno : Int) (word : Nat) (buf : Bytes) :
    parsedRequestParse errno (parsedRequestCreate word) buf ≠ .error .unfinished ∧
      ((∃ result, parsedRequestParse errno (parsedRequestCreate word) buf = .ok result) ↔
        Safe errno buf) := by
  have fresh : (parsedRequestCreate word).buf = none := rfl
  have intact := Intact.create word
  by_cases refused : buf.length < MIN_REQ_LEN ∨ buf.length > MAX_REQ_LEN
  · rw [parse_refused fresh (or_assoc.mp (.inl refused))]
    exact ⟨by simp, iff_of_true ⟨_, rfl⟩ (or_assoc.mp (.inl refused))⟩
  by_cases ended : crlf ++ crlf <:+: cstr buf
  · have parsed {first lines body} (request : IsRequest buf first lines body) :=
      @IsRequest.parse_eq errno _ _ _ _ _ request fresh refused
    by_cases reads : ∀ first lines body, IsRequest buf first lines body →
        Reads errno first lines body
    · obtain ⟨first, lines, body, request⟩ := exists_request ended
      obtain ⟨result, done⟩ := request.parseLines_ok intact (reads first lines body request)
      rw [parsed request, done]
      exact ⟨by simp, iff_of_true ⟨_, rfl⟩ (.inr (.inr reads))⟩
    · have notSafe : ¬ Safe errno buf := by
        rintro (short | long | reads')
        · exact refused (.inl short)
        · exact refused (.inr long)
        · exact reads reads'
      simp only [not_forall] at reads
      obtain ⟨first, lines, body, request, unread⟩ := reads
      obtain ⟨fault, isFault, failed⟩ := request.parseLines_fault intact unread
      rw [parsed request, failed]
      exact ⟨by simpa using isFault, iff_of_false (by simp) notSafe⟩
  · rw [parse_refused fresh (.inr (.inr ended))]
    refine ⟨by simp, iff_of_true ⟨_, rfl⟩ (.inr (.inr ?_))⟩
    intro first lines body request
    exact absurd request.ended ended

theorem address_last_faults : parsedRequestParse 0 (parsedRequestCreate 0)
    (ascii "GET /\r\n\r\n") = .error .outOfBounds := by
  decide +kernel

end Parse

end ProxyServer.ProxyParse
