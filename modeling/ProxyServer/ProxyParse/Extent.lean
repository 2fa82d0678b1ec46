import ProxyServer.ProxyParse.Strings

namespace ProxyServer.ProxyParse
open Lib Lib.Block Lib.Lines

/-- `ParsedRequest_unparse` succeeds when its length is enough, then has written as much text as was
advertised, and leaves what comes after the buffer as it is. -/
def UnparseRespects (pr : ParsedRequest) (buflen : Nat) : Prop :=
  ∀ block : Bytes, buflen ≤ block.length → ∃ l total ret block', LineParts.Of l pr ∧
    parsedRequestTotalLen pr = .ok total ∧
    parsedRequestUnparse pr block 0 buflen = .ok (ret, block') ∧
    (ret = 0 ↔ total ≤ buflen) ∧
    (ret = 0 → (pr.textWith l).length = total ∧ block'.take total = pr.textWith l) ∧
    block'.length = block.length ∧ block'.drop buflen = block.drop buflen

def HeadersRespect (pr : ParsedRequest) (block : Bytes) (buf buflen : Nat) : Prop :=
  ∃ ret block', parsedRequestUnparseHeaders pr block buf buflen = .ok (ret, block') ∧
    block'.length = block.length ∧ block'.drop (buf + buflen) = block.drop (buf + buflen)

def headersAdvertised (pr : ParsedRequest) : Nat := toSize (toInt (headerText pr.fields).length)

def advertised (pr : ParsedRequest) (l : LineParts) : Nat :=
  toSize ((l.text ++ crlf).length + headersAdvertised pr)

def RoomFor (pr : ParsedRequest) (l : LineParts) (buflen : Nat) : Prop :=
  buflen < advertised pr l ∨
    headersAdvertised pr = (headerText pr.fields).length ∧ (pr.textWith l).length < buflen

def RoomForHeaders (pr : ParsedRequest) (buflen : Nat) : Prop :=
  buflen < headersAdvertised pr ∨ (headerText pr.fields).length < buflen

variable {pr : ParsedRequest} {l : LineParts} {block : Bytes} {buf buflen : Nat}

theorem writeAt_frame {bytes block' : Bytes} {i n : Nat} (written : writeAt block i bytes = .ok block')
    (below : i + bytes.length ≤ n) :
    block'.length = block.length ∧ block'.drop n = block.drop n := by
  by_cases fits : i + bytes.length ≤ block.length
  · rw [writeAt_ok fits] at written
    obtain rfl := Except.ok.inj written
    have front : (block.take i ++ bytes).length = i + bytes.length := by
      rw [List.length_append, List.length_take, min_eq_left (by omega)]
    constructor
    · rw [List.length_append, front, List.length_drop]
      omega
    · obtain ⟨k, rfl⟩ := Nat.exists_eq_add_of_le below
      rw [← front, List.drop_length_add_append, front, List.drop_drop]
  · rw [writeAt_fault (by omega)] at written
    cases written

theorem unparseHeaders_eq (held : pr.buf ≠ none) (block : Bytes) (buf buflen : Nat) :
    parsedRequestUnparseHeaders pr block buf buflen =
      if buflen < headersAdvertised pr then .ok (-1, block)
      else do
        let block ← writeAt block buf (headerText pr.fields ++ [0])
        return (0, block) := by
  rw [parsedRequestUnparseHeaders, if_neg held, printHeaders_eq, headersLen_wrapped held,
    headersAdvertised]
  split
  · rfl
  · rw [bind_assoc]
    rfl

theorem headersRespect_of (held : pr.buf ≠ none) (room : RoomForHeaders pr buflen)
    (inside : buf + buflen ≤ block.length) : HeadersRespect pr block buf buflen := by
  rw [HeadersRespect, unparseHeaders_eq held]
  by_cases short : buflen < headersAdvertised pr
  · exact ⟨-1, block, if_pos short, rfl, rfl⟩
  · have long := room.resolve_left short
    have fits : buf + (headerText pr.fields ++ [0]).length ≤ buf + buflen := by
      rw [List.length_append, List.length_singleton]
      omega
    have written := writeAt_ok (fits.trans inside)
    obtain ⟨same, after⟩ := writeAt_frame written fits
    rw [if_neg short, written]
    exact ⟨0, _, rfl, same, after⟩

theorem headersRespect_iff (held : pr.buf ≠ none) (exact : block.length = buf + buflen) :
    HeadersRespect pr block buf buflen ↔ RoomForHeaders pr buflen := by
  refine ⟨?_, fun room => headersRespect_of held room exact.ge⟩
  rintro ⟨ret, block', printed, -⟩
  rw [unparseHeaders_eq held] at printed
  by_contra crowded
  obtain ⟨long, full⟩ := not_or.mp crowded
  have past : block.length < buf + (headerText pr.fields ++ [0]).length := by
    rw [List.length_append, List.length_singleton]
    omega
  rw [if_neg long, writeAt_fault past, error_bind] at printed
  cases printed

theorem LineParts.Of.totalLen_advertised (of : l.Of pr) :
    parsedRequestTotalLen pr = .ok (advertised pr l) := by
  rw [parsedRequestTotalLen, if_neg of.held, of.requestLineLen_eq, ok_bind,
    headersLen_wrapped of.held]
  rfl

theorem LineParts.Of.unparse_short (of : l.Of pr) (block : Bytes)
    (short : buflen < (l.text ++ crlf).length) :
    parsedRequestUnparse pr block 0 buflen = .ok (-1, block) := by
  rw [parsedRequestUnparse, if_neg of.held, parsedRequestPrintRequestLine, of.requestLineLen_eq,
    ok_bind, if_pos short]
  rfl

theorem LineParts.Of.unparse_long (of : l.Of pr) (block : Bytes)
    (enough : (l.text ++ crlf).length ≤ buflen) :
    parsedRequestUnparse pr block 0 buflen = (do
      let block ← writeAt block 0 (l.text ++ crlf)
      if buflen - (l.text ++ crlf).length < headersAdvertised pr then
        return (-1, block)
      let block ← writeAt block (l.text ++ crlf).length (headerText pr.fields ++ [0])
      return (0, block)) := by
  rw [parsedRequestUnparse, if_neg of.held, of.printRequestLine_eq block 0 enough, bind_assoc]
  refine congrArg (writeAt block 0 (l.text ++ crlf) >>= ·) (funext fun block' => ?_)
  rw [pure_bind]
  have length : parsedHeaderHeadersLen pr = headersAdvertised pr := headersLen_wrapped of.held
  by_cases short : buflen - (l.text ++ crlf).length < headersAdvertised pr
  · simp only [printHeaders_eq, length, if_pos short, Nat.zero_add]
    rfl
  · simp only [printHeaders_eq, length, if_neg short, Nat.zero_add, bind_assoc]
    rfl

theorem advertised_le (pr : ParsedRequest) (l : LineParts) :
    advertised pr l ≤ (l.text ++ crlf).length + headersAdvertised pr := by
  rw [advertised, toSize]
  omega

theorem advertised_eq (fits : (l.text ++ crlf).length + headersAdvertised pr < 2 ^ 64) :
    advertised pr l = (l.text ++ crlf).length + headersAdvertised pr := by
  rw [advertised, toSize]
  omega

theorem length_textWith (pr : ParsedRequest) (l : LineParts) : (pr.textWith l).length =
    (l.text ++ crlf).length + (headerText pr.fields).length := by
  rw [ParsedRequest.textWith, ← List.append_assoc, List.length_append]

theorem length_printed (pr : ParsedRequest) (l : LineParts) :
    (l.text ++ crlf ++ (headerText pr.fields ++ [0])).length = (pr.textWith l).length + 1 := by
  rw [length_textWith, ← List.append_assoc, List.length_append, List.length_append]
  rfl

theorem LineParts.Of.respects_short (of : l.Of pr) (short : buflen < advertised pr l)
    (inside : buflen ≤ block.length) :
    ∃ block', parsedRequestUnparse pr block 0 buflen = .ok (-1, block') ∧
      block'.length = block.length ∧ block'.drop buflen = block.drop buflen := by
  have above := advertised_le pr l
  by_cases line : buflen < (l.text ++ crlf).length
  · exact ⟨block, of.unparse_short block line, rfl, rfl⟩
  · have fits : 0 + (l.text ++ crlf).length ≤ buflen := by omega
    have written := writeAt_ok (fits.trans inside)
    obtain ⟨same, after⟩ := writeAt_frame written fits
    refine ⟨_, ?_, same, after⟩
    rw [of.unparse_long block (Nat.le_of_not_lt line), written, ok_bind, if_pos (by omega)]
    rfl

theorem LineParts.Of.respects_long (of : l.Of pr)
    (exact : headersAdvertised pr = (headerText pr.fields).length)
    (long : (pr.textWith l).length < buflen) (inside : buflen ≤ block.length) :
    ∃ rest, parsedRequestUnparse pr block 0 buflen = .ok (0, pr.textWith l ++ rest) ∧
      (pr.textWith l ++ rest).length = block.length ∧
      (pr.textWith l ++ rest).drop buflen = block.drop buflen := by
  have lengths := length_textWith pr l
  have fits : 0 + (l.text ++ crlf ++ (headerText pr.fields ++ [0])).length ≤ buflen := by
    rw [length_printed]
    omega
  have written := writeAt_ok (fits.trans inside)
  obtain ⟨same, after⟩ := writeAt_frame written fits
  have whole : block.take 0 ++ (l.text ++ crlf ++ (headerText pr.fields ++ [0])) ++
      block.drop (0 + (l.text ++ crlf ++ (headerText pr.fields ++ [0])).length) =
        pr.textWith l ++ 0 :: block.drop
          (0 + (l.text ++ crlf ++ (headerText pr.fields ++ [0])).length) := by
    simp [ParsedRequest.textWith]
  rw [whole] at written same after
  rw [← writeAt_append, Nat.zero_add] at written
  refine ⟨_, ?_, same, after⟩
  rw [of.unparse_long block (by omega)]
  have room : ¬ buflen - (l.text ++ crlf).length < headersAdvertised pr := by omega
  simp only [if_neg room]
  rw [← bind_assoc, written]
  rfl

theorem LineParts.Of.room_of_success (of : l.Of pr) {ret : Int} {block' : Bytes}
    (printed : parsedRequestUnparse pr block 0 buflen = .ok (ret, block')) (success : ret = 0) :
    headersAdvertised pr + (l.text ++ crlf).length ≤ buflen ∧
      (pr.textWith l).length < block.length := by
  by_cases line : buflen < (l.text ++ crlf).length
  · rw [of.unparse_short block line] at printed
    cases printed
    cases success
  · rw [of.unparse_long block (Nat.le_of_not_lt line)] at printed
    obtain ⟨block₁, first, printed⟩ := exists_of_bind printed
    split at printed
    · cases printed
      cases success
    · rename_i room
      obtain ⟨block₂, second, -⟩ := exists_of_bind printed
      refine ⟨by omega, ?_⟩
      have whole : writeAt block 0 (l.text ++ crlf ++ (headerText pr.fields ++ [0])) = .ok block₂ := by
        rw [← writeAt_append, first, ok_bind, Nat.zero_add]
        exact second
      by_contra full
      have past : block.length < 0 + (l.text ++ crlf ++ (headerText pr.fields ++ [0])).length := by
        rw [length_printed]
        omega
      rw [writeAt_fault past] at whole
      cases whole

theorem unparseRespects_iff (sized : buflen < 2 ^ 64) :
    UnparseRespects pr buflen ↔ ∃ l : LineParts, l.Of pr ∧ RoomFor pr l buflen := by
  constructor
  · intro respects
    obtain ⟨l, total, ret, block', of, isTotal, printed, success, written, -⟩ :=
      respects (List.replicate buflen 0) List.length_replicate.ge
    refine ⟨l, of, ?_⟩
    obtain rfl := Except.ok.inj (of.totalLen_advertised.symm.trans isTotal)
    by_cases short : buflen < advertised pr l
    · exact .inl short
    · have isZero := success.mpr (Nat.le_of_not_lt short)
      obtain ⟨room, long⟩ := of.room_of_success printed isZero
      rw [List.length_replicate] at long
      have same := (written isZero).1
      rw [advertised_eq (by omega), length_textWith] at same
      exact .inr ⟨by omega, long⟩
  · rintro ⟨l, of, short | ⟨exact, long⟩⟩ block inside
    · obtain ⟨block', printed, same, after⟩ := of.respects_short short inside
      exact ⟨l, _, -1, block', of, of.totalLen_advertised, printed,
        iff_of_false (by decide) (Nat.not_le.mpr short), by simp, same, after⟩
    · obtain ⟨rest, printed, same, after⟩ := of.respects_long exact long inside
      have total : advertised pr l = (pr.textWith l).length := by
        rw [length_textWith] at long ⊢
        rw [advertised_eq (by omega), exact]
      refine ⟨l, _, 0, _, of, of.totalLen_advertised, printed, iff_of_true rfl (by omega),
        fun _ => ⟨total.symm, ?_⟩, same, after⟩
      rw [total, List.take_left]

section Parsed

variable {errno : Int} {port : Port} {request : Bytes}

theorem exists_line_iff (parsed : parsedRequestParse errno (newRequest port) request = .ok (0, pr))
    (isGet : pr.textAt pr.method = .ok (ascii "GET")) (headers : List ParsedHeader)
    (headerslen : Nat) :
    (∃ l, LineParts.Of l { pr with headers, headerslen }) ↔ ∃ given, pr.port.text = .ok given := by
  constructor
  · rintro ⟨l, of⟩
    exact ⟨l.port, of.port⟩
  · rintro ⟨given, isPort⟩
    obtain ⟨protocol, host, path, version, isLine, -⟩ := line_of_accepted parsed isGet
    have of := isLine given isPort
    exact ⟨_, of.held, of.method, of.protocol, of.host, of.port, of.path, of.version⟩

/-- Unparsing keeps to its buffer unless the text fills it, its port is unset or its headers are
too long for an `int`; so does printing the headers, here and in `HandleRequest`. -/
theorem unparse_respects_iff
    (parsed : parsedRequestParse errno (newRequest port) request = .ok (0, pr))
    (isGet : pr.textAt pr.method = .ok (ascii "GET")) (headers : List ParsedHeader)
    (headerslen : Nat) {edited : ParsedRequest} (isEdited : edited = { pr with headers, headerslen })
    (sized : buflen < 2 ^ 64) :
    (UnparseRespects edited buflen ↔ ∃ l : LineParts, l.Of edited ∧ RoomFor edited l buflen) ∧
      ((∃ l : LineParts, l.Of edited) ↔ ∃ given, pr.port.text = .ok given) ∧
      (∀ buf, (∀ block : Bytes, buf + buflen ≤ block.length →
        HeadersRespect edited block buf buflen) ↔ RoomForHeaders edited buflen) ∧
      ∀ (buffer : Bytes) (maxBytes length : Nat), buffer.length = maxBytes → length ≤ maxBytes →
        (HeadersRespect edited buffer length (maxBytes - length) ↔
          RoomForHeaders edited (maxBytes - length)) := by
  have held : edited.buf ≠ none := by
    have held := held_of_accepted parsed
    rwa [isEdited]
  refine ⟨unparseRespects_iff sized, ?_, fun buf => ⟨fun respects => ?_, fun room block inside => ?_⟩,
    fun buffer maxBytes length whole inside => ?_⟩
  · rw [isEdited]
    exact exists_line_iff parsed isGet headers headerslen
  · exact (headersRespect_iff held List.length_replicate).mp
      (respects (List.replicate (buf + buflen) 0) List.length_replicate.ge)
  · exact headersRespect_of held room inside
  · exact headersRespect_iff held (by omega)

end Parsed

theorem unparse_respects_named : ∃ pr,
    parsedRequestParse 0 (newRequest .null) (ascii "GET http://a:80/ HTTP/1.1\r\n\r\n") =
      .ok (0, pr) ∧
    (UnparseRespects { pr with headers := [], headerslen := 8 } 40 ↔
      ∃ l : LineParts, l.Of { pr with headers := [], headerslen := 8 } ∧
        RoomFor { pr with headers := [], headerslen := 8 } l 40) := by
  have parsed : (parsedRequestParse 0 (newRequest .null)
      (ascii "GET http://a:80/ HTTP/1.1\r\n\r\n")).map (fun result =>
        (result.1, result.2.textAt result.2.method)) = .ok (0, .ok (ascii "GET")) := by
    decide +kernel
  cases accepted : parsedRequestParse 0 (newRequest .null)
      (ascii "GET http://a:80/ HTTP/1.1\r\n\r\n") with
  | error fault =>
      rw [accepted] at parsed
      cases parsed
  | ok result =>
      obtain ⟨ret, pr⟩ := result
      rw [accepted] at parsed
      obtain ⟨rfl, isGet⟩ := Prod.mk.inj (Except.ok.inj parsed)
      exact ⟨pr, rfl, (unparse_respects_iff accepted isGet [] 8 rfl (by decide)).1⟩

theorem unparse_full_buffer :
    ¬ ∀ (errno : Int) (port : Port) (request : Bytes) (pr : ParsedRequest)
      (headers : List ParsedHeader) (headerslen buflen : Nat), buflen < 2 ^ 64 →
        parsedRequestParse errno (newRequest port) request = .ok (0, pr) →
        pr.textAt pr.method = .ok (ascii "GET") →
        UnparseRespects { pr with headers, headerslen } buflen := by
  intro all
  have parsed : (parsedRequestParse 0 (newRequest .null)
      (ascii "GET http://a:80/ HTTP/1.1\r\n\r\n")).map (fun result =>
        (result.1, result.2.textAt result.2.method,
          parsedRequestUnparse result.2 (List.replicate 29 1) 0 29)) =
      .ok (0, .ok (ascii "GET"), .error .outOfBounds) := by
    decide +kernel
  cases accepted : parsedRequestParse 0 (newRequest .null)
      (ascii "GET http://a:80/ HTTP/1.1\r\n\r\n") with
  | error fault =>
      rw [accepted] at parsed
      cases parsed
  | ok result =>
      obtain ⟨ret, pr⟩ := result
      rw [accepted] at parsed
      simp only [Except.map, Except.ok.injEq, Prod.mk.injEq] at parsed
      obtain ⟨rfl, isGet, fault⟩ := parsed
      obtain ⟨l, total, ret, block, -, -, printed, -⟩ :=
        all 0 .null _ pr pr.headers pr.headerslen 29 (by decide) accepted isGet
          (List.replicate 29 1) List.length_replicate.ge
      rw [fault] at printed
      cases printed

end ProxyServer.ProxyParse
