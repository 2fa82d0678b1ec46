import ProxyServer.ProxyParse.View

namespace ProxyServer.ProxyParse
open Lib Lib.Block Lib.Lines

def parsedHeaderLineLen (ph : ParsedHeader) : Nat :=
  match ph.key with
  | some key => key.length + ph.value.length + 4
  | none => 0

/-- The lengths are added up in an `int`. -/
def parsedHeaderHeadersLen (pr : ParsedRequest) : Nat :=
  if pr.buf = none then 0
  else
    let len := pr.headers.foldl (fun (len : Int) ph => toInt (len + parsedHeaderLineLen ph)) 0
    toSize (toInt (len + 2))

def printSlots (cursor : Bytes × Nat) : List ParsedHeader → Checked (Bytes × Nat)
  | [] => return cursor
  | ph :: slots =>
      match ph.key with
      | none => printSlots cursor slots
      | some key => do
          let cursor ← put cursor key
          let cursor ← put cursor (ascii ": ")
          let cursor ← put cursor ph.value
          let cursor ← put cursor crlf
          printSlots cursor slots

def parsedHeaderPrintHeaders (pr : ParsedRequest) (block : Bytes) (buf len : Nat) :
    Checked (Int × Bytes) := do
  if len < parsedHeaderHeadersLen pr then
    return (-1, block)
  let (block, current) ← printSlots (block, buf) pr.headers
  let block ← writeAt block current crlf
  let block ← storeAt block (current + 2) 0
  return (0, block)

def parsedRequestUnparseHeaders (pr : ParsedRequest) (block : Bytes) (buf buflen : Nat) :
    Checked (Int × Bytes) := do
  if pr.buf = none then
    return (-1, block)
  let (printed, block) ← parsedHeaderPrintHeaders pr block buf buflen
  if printed < 0 then
    return (-1, block)
  return (0, block)

def readString : Option Bytes → Checked Bytes
  | some s => .ok s
  | none => .error .nullPointer

def ParsedRequest.hostName (pr : ParsedRequest) : Checked Bytes :=
  match pr.host with
  | some (.inBuf i) => pr.textAt (some i)
  | some (.owned name) => .ok name
  | none => .error .nullPointer

/-- The port, if the pointer is not null. What `malloc` returned points nowhere. -/
def Port.text : Port → Checked (Option Bytes)
  | .null => .ok none
  | .owned text => .ok (some text)
  | .uninitialized word => if word = 0 then .ok none else .error .outOfBounds

def parsedRequestRequestLineLen (pr : ParsedRequest) : Checked Nat := do
  if pr.buf = none then
    return 0
  let method ← pr.textAt pr.method
  let protocol ← readString pr.protocol
  let host ← pr.hostName
  let version ← pr.textAt pr.version
  let len := method.length + 1 + protocol.length + 3 + host.length + 1 + version.length + 2
  let len := match ← pr.port.text with
    | some port => len + (port.length + 1)
    | none => len
  let path ← readString pr.path
  return len + path.length

def parsedRequestPrintRequestLine (pr : ParsedRequest) (block : Bytes) (buf buflen : Nat) :
    Checked (Int × Bytes × Nat) := do
  if buflen < (← parsedRequestRequestLineLen pr) then
    return (-1, block, 0)
  let cursor ← put (block, buf) (← pr.textAt pr.method)
  let cursor ← put cursor [32]
  let cursor ← put cursor (← readString pr.protocol)
  let cursor ← put cursor (ascii "://")
  let cursor ← put cursor (← pr.hostName)
  let cursor ← match ← pr.port.text with
    | none => pure cursor
    | some port => do
        let cursor ← put cursor [58]
        put cursor port
  let cursor ← put cursor (← readString pr.path)
  let cursor ← put cursor [32]
  let cursor ← put cursor (← pr.textAt pr.version)
  let (block, current) ← put cursor crlf
  return (0, block, current - buf)

def parsedRequestUnparse (pr : ParsedRequest) (block : Bytes) (buf buflen : Nat) :
    Checked (Int × Bytes) := do
  if pr.buf = none then
    return (-1, block)
  let (printed, block, tmp) ← parsedRequestPrintRequestLine pr block buf buflen
  if printed < 0 then
    return (-1, block)
  let (printed, block) ← parsedHeaderPrintHeaders pr block (buf + tmp) (buflen - tmp)
  if printed < 0 then
    return (-1, block)
  return (0, block)

def parsedRequestTotalLen (pr : ParsedRequest) : Checked Nat := do
  if pr.buf = none then
    return 0
  return toSize ((← parsedRequestRequestLineLen pr) + parsedHeaderHeadersLen pr)

def fieldLine (field : Bytes × Bytes) : Bytes := field.1 ++ (ascii ": " ++ field.2)

def headerText (fields : List (Bytes × Bytes)) : Bytes := terminated (fields.map fieldLine) ++ crlf

theorem length_fieldLine (field : Bytes × Bytes) :
    (fieldLine field).length = field.1.length + field.2.length + 2 := by
  simp only [fieldLine, List.length_append]
  have two : (ascii ": ").length = 2 := rfl
  omega

theorem headerText_cons (field : Bytes × Bytes) (fields : List (Bytes × Bytes)) :
    headerText (field :: fields) = fieldLine field ++ (crlf ++ headerText fields) := by
  simp [headerText]

theorem length_headerText_cons (field : Bytes × Bytes) (fields : List (Bytes × Bytes)) :
    (headerText (field :: fields)).length =
      field.1.length + field.2.length + 4 + (headerText fields).length := by
  rw [headerText_cons, List.length_append, List.length_append, length_fieldLine]
  simp only [crlf, List.length_cons, List.length_nil]
  omega

theorem printSlots_eq (cursor : Bytes × Nat) (slots : List ParsedHeader) :
    (printSlots cursor slots >>= fun cursor => put cursor crlf) =
      put cursor (headerText (liveFields slots)) := by
  induction slots generalizing cursor with
  | nil => rfl
  | cons ph slots ih =>
      obtain ⟨key, value⟩ := ph
      cases key with
      | none => exact ih cursor
      | some key =>
          simp only [printSlots, bind_assoc, ih, put_bind, put_put, liveFields_some,
            headerText_cons, fieldLine, List.append_assoc]

theorem toInt_toInt_add (m n : Int) : toInt (toInt m + n) = toInt (m + n) := Int.bmod_add_bmod

theorem headersLen_wrapped {pr : ParsedRequest} (held : pr.buf ≠ none) :
    parsedHeaderHeadersLen pr = toSize (toInt (headerText pr.fields).length) := by
  have added (slots : List ParsedHeader) (len : Int) :
      slots.foldl (fun (len : Int) ph => toInt (len + parsedHeaderLineLen ph)) (toInt len) =
        toInt (len + (headerText (liveFields slots)).length - 2) := by
    induction slots generalizing len with
    | nil =>
        have two : (headerText (liveFields [])).length = 2 := rfl
        simp [two]
    | cons ph slots ih =>
        obtain ⟨key, value⟩ := ph
        rw [List.foldl_cons, toInt_toInt_add, ih]
        cases key with
        | none =>
            have zero : parsedHeaderLineLen ⟨none, value⟩ = 0 := rfl
            rw [zero, Nat.cast_zero, Int.add_zero, liveFields_none]
        | some key =>
            rw [liveFields_some, length_headerText_cons]
            have length : parsedHeaderLineLen ⟨some key, value⟩ =
                key.length + value.length + 4 := rfl
            rw [length]
            congr 1
            push_cast
            omega
  have sum := added pr.headers 0
  rw [show toInt 0 = 0 from rfl] at sum
  simp only [parsedHeaderHeadersLen, if_neg held, sum, toInt_toInt_add]
  rw [Int.sub_add_cancel, Int.zero_add]
  rfl

theorem toSize_toInt {n : Nat} (small : n < 2 ^ 31) : toSize (toInt n) = n := by
  rw [toInt_length.mpr small, toSize]
  omega

theorem headersLen_eq {pr : ParsedRequest} (held : pr.buf ≠ none)
    (small : (headerText pr.fields).length < 2 ^ 31) :
    parsedHeaderHeadersLen pr = (headerText pr.fields).length := by
  rw [headersLen_wrapped held, toSize_toInt small]

theorem printHeaders_eq (pr : ParsedRequest) (block : Bytes) (buf len : Nat) :
    parsedHeaderPrintHeaders pr block buf len =
      if len < parsedHeaderHeadersLen pr then .ok (-1, block)
      else do
        let block ← writeAt block buf (headerText pr.fields ++ [0])
        return (0, block) := by
  rw [parsedHeaderPrintHeaders]
  by_cases short : len < parsedHeaderHeadersLen pr
  · rw [if_pos short, if_pos short]
    rfl
  · rw [if_neg short, if_neg short]
    have ended (cursor : Bytes × Nat) : (do
        let block ← writeAt cursor.1 cursor.2 crlf
        let block ← storeAt block (cursor.2 + 2) 0
        return (0, block) : Checked (Int × Bytes)) = (do
        let cursor ← put cursor crlf
        let cursor ← put cursor [0]
        return (0, cursor.1)) := by
      simp only [put, bind_assoc, pure_bind, storeAt_eq_writeAt]
      rfl
    have whole := congrArg (· >>= fun cursor => put cursor [0] >>= fun cursor =>
      (pure (0, cursor.1) : Checked (Int × Bytes))) (printSlots_eq (block, buf) pr.headers)
    simp only [bind_assoc, put_bind] at whole
    simp only [ended, put_bind]
    exact whole.trans (by simp only [put, bind_assoc, pure_bind]; rfl)

theorem Port.text_elim (port : Option Bytes) :
    (port.elim Port.null Port.owned).text = .ok port := by
  cases port <;> rfl

def portText (port : Option Bytes) : Bytes := port.elim [] (58 :: ·)

structure LineParts where
  method : Bytes
  protocol : Bytes
  host : Bytes
  port : Option Bytes
  path : Bytes
  version : Bytes

structure LineParts.Of (l : LineParts) (pr : ParsedRequest) : Prop where
  held : pr.buf ≠ none
  method : pr.textAt pr.method = .ok l.method
  protocol : pr.protocol = some l.protocol
  host : pr.hostName = .ok l.host
  port : pr.port.text = .ok l.port
  path : pr.path = some l.path
  version : pr.textAt pr.version = .ok l.version

def LineParts.address (l : LineParts) : Bytes :=
  l.protocol ++ (ascii "://" ++ (l.host ++ (portText l.port ++ l.path)))

def LineParts.text (l : LineParts) : Bytes := l.method ++ 32 :: (l.address ++ 32 :: l.version)

def ParsedRequest.textWith (pr : ParsedRequest) (l : LineParts) : Bytes :=
  l.text ++ (crlf ++ headerText pr.fields)

section Line

variable {l : LineParts} {pr : ParsedRequest}

theorem LineParts.Of.requestLineLen_eq (of : l.Of pr) :
    parsedRequestRequestLineLen pr = .ok ((l.text ++ crlf).length) := by
  have isProtocol : readString pr.protocol = .ok l.protocol := by rw [of.protocol]; rfl
  have isPath : readString pr.path = .ok l.path := by rw [of.path]; rfl
  have three : (ascii "://").length = 3 := rfl
  simp only [parsedRequestRequestLineLen, if_neg of.held, of.method, of.host, of.version, of.port,
    isProtocol, isPath, ok_bind]
  refine congrArg Except.ok ?_
  rw [text, address]
  cases l.port <;>
    simp only [portText, Option.elim_none, Option.elim_some, List.length_append, List.length_cons,
      List.length_nil, three, crlf] <;>
    omega

theorem LineParts.Of.printRequestLine_eq (of : l.Of pr) (block : Bytes) (buf : Nat) {len : Nat}
    (enough : (l.text ++ crlf).length ≤ len) :
    parsedRequestPrintRequestLine pr block buf len = (do
      let block ← writeAt block buf (l.text ++ crlf)
      return (0, block, (l.text ++ crlf).length)) := by
  have isProtocol : readString pr.protocol = .ok l.protocol := by rw [of.protocol]; rfl
  have isPath : readString pr.path = .ok l.path := by rw [of.path]; rfl
  have printed : parsedRequestPrintRequestLine pr block buf len = (do
      let (block, current) ← put (block, buf) (l.text ++ crlf)
      return (0, block, current - buf)) := by
    rw [text, address]
    simp only [parsedRequestPrintRequestLine, of.requestLineLen_eq, ok_bind,
      if_neg (Nat.not_lt.mpr enough), of.method, of.host, of.version, of.port, isProtocol, isPath]
    cases l.port <;>
      simp only [portText, Option.elim_none, Option.elim_some, pure_bind, put_bind,
        List.append_assoc, List.cons_append, List.nil_append]
  rw [printed]
  simp only [put, bind_assoc, pure_bind, Nat.add_sub_cancel_left]

theorem LineParts.Of.totalLen_eq (of : l.Of pr)
    (small : (headerText pr.fields).length < 2 ^ 31) (short : (pr.textWith l).length < 2 ^ 64) :
    parsedRequestTotalLen pr = .ok (pr.textWith l).length := by
  simp only [parsedRequestTotalLen, if_neg of.held, of.requestLineLen_eq, ok_bind,
    headersLen_eq of.held small]
  refine congrArg Except.ok ?_
  simp only [ParsedRequest.textWith, List.length_append] at short ⊢
  rw [toSize]
  omega

theorem LineParts.Of.unparse_eq (of : l.Of pr) (small : (headerText pr.fields).length < 2 ^ 31)
    {block : Bytes} {len : Nat}
    (enough : (pr.textWith l).length < len) (fits : len ≤ block.length) :
    ∃ rest, parsedRequestUnparse pr block 0 len = .ok (0, pr.textWith l ++ rest) := by
  have lengths : (pr.textWith l).length =
      (l.text ++ crlf).length + (headerText pr.fields).length := by
    simp only [ParsedRequest.textWith, List.length_append]
    omega
  have room : ¬ len - (l.text ++ crlf).length < parsedHeaderHeadersLen pr := by
    rw [headersLen_eq of.held small]
    omega
  have inside : 0 + (l.text ++ crlf ++ (headerText pr.fields ++ [0])).length ≤ block.length := by
    simp only [ParsedRequest.textWith, List.length_append, List.length_singleton] at enough ⊢
    omega
  have written := writeAt_ok inside
  rw [← writeAt_append] at written
  cases line : writeAt block 0 (l.text ++ crlf) with
  | error fault => simp [line, error_bind] at written
  | ok block' =>
      rw [line, ok_bind] at written
      refine ⟨0 :: block.drop (0 + (l.text ++ crlf ++ (headerText pr.fields ++ [0])).length), ?_⟩
      simp only [parsedRequestUnparse, if_neg of.held,
        of.printRequestLine_eq block 0 (by omega : _ ≤ len), line, ok_bind, pure_bind,
        printHeaders_eq, if_neg room, written]
      simp [ParsedRequest.textWith]
      rfl

end Line

end ProxyServer.ProxyParse
