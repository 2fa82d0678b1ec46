import ProxyServer.ProxyParse.Strings
import ProxyServer.Request.HandleRequest

namespace ProxyServer.ProxyParse
open Lib Lib.Block Lib.Lines

/-! ## The header edits -/

def hexDigit (n : Nat) : UInt8 := if n < 10 then (48 + n).toUInt8 else (87 + n).toUInt8

def hex8 (word : UInt32) : Bytes :=
  [7, 6, 5, 4, 3, 2, 1, 0].map fun place => hexDigit (word.toNat / 16 ^ place % 16)

def traceIdStr (time rand : UInt32) : Bytes := hex8 time ++ hex8 rand

def addTraceId (time rand : UInt32) (pr : ParsedRequest) : Checked ParsedRequest :=
  match parsedHeaderGet pr (ascii "X-Trace-Id") with
  | some _ => .ok pr
  | none => parsedHeaderSet pr (ascii "X-Trace-Id") (traceIdStr time rand)

def isLoopback (value : Bytes) : Bool :=
  (memmem (cstr value) (ascii "localhost")).isSome ||
    (memmem (cstr value) (ascii "127.0.0.1")).isSome

def editHeaders (pr : ParsedRequest) : Checked ParsedRequest := do
  let pr ← parsedHeaderSet pr (ascii "Connection") (ascii "close")
  let pr := (parsedHeaderRemove pr (ascii "Proxy-Connection")).2
  if pr.host = none then
    return pr
  match parsedHeaderGet pr (ascii "Host") >>= (pr.headers[·]?) with
  | none => parsedHeaderSet pr (ascii "Host") (← pr.hostName)
  | some slot =>
      if isLoopback slot.value then parsedHeaderSet pr (ascii "Host") (← pr.hostName)
      else return pr

/-! ## The buffer -/

def strcat (block s : Bytes) : Checked Bytes := do
  let before ← stringAt block 0
  writeAt block before.length (s ++ [0])

structure SendResult where
  taken : Option Nat
  positive : ∀ n ∈ taken, 0 < n

/-- `target` is the host and the port that `ConnectEndServer` is called with, `request` the string
that `send` is. -/
structure Forwarded where
  target : Bytes × Int
  request : Option Bytes
  toUpstream : Bytes
  handled : Handled
  deriving DecidableEq

def endServerPort (pr : ParsedRequest) : Checked Int := do
  match ← pr.port.text with
  | none => return 80
  | some port => return atoi port

/-- `HandleRequest`; `x` says what happens after the request has been sent. -/
def forwardRequest {maxBytes : Nat} (f : ContentFilter) (x : Exchange maxBytes) (sent : SendResult)
    (pr : ParsedRequest) : Checked Forwarded := do
  let buffer ← writeAt (List.replicate maxBytes 0) 0 (ascii "GET " ++ [0])
  let buffer ← strcat buffer (← readString pr.path)
  let buffer ← strcat buffer (ascii " ")
  let buffer ← strcat buffer (← pr.textAt pr.version)
  let buffer ← strcat buffer crlf
  let length := (← stringAt buffer 0).length
  let pr ← editHeaders pr
  -- Headers that are too long for the rest of the buffer are logged, and the function goes on.
  let (_, buffer) ← parsedRequestUnparseHeaders pr buffer length (maxBytes - length)
  let target := (← pr.hostName, ← endServerPort pr)
  if x.connected = false then
    return ⟨target, none, [], handleRequest f x⟩
  let request ← stringAt buffer 0
  match sent.taken with
  | none => return ⟨target, some request, [], handleRequest f { x with requestSent := false }⟩
  | some n =>
      return ⟨target, some request, request.take n, handleRequest f { x with requestSent := true }⟩

/-! ## The edited table -/

def tracedFields (time rand : UInt32) (fields : List (Bytes × Bytes)) : List (Bytes × Bytes) :=
  if ascii "X-Trace-Id" ∈ keys fields then fields
  else assign fields (ascii "X-Trace-Id", traceIdStr time rand)

def HostKept (fields : List (Bytes × Bytes)) : Prop :=
  ∃ field ∈ fields, field.1 = ascii "Host" ∧ isLoopback field.2 = false

instance (fields : List (Bytes × Bytes)) : Decidable (HostKept fields) :=
  inferInstanceAs (Decidable (∃ field ∈ fields, field.1 = ascii "Host" ∧ isLoopback field.2 = false))

def hopFields (fields : List (Bytes × Bytes)) : List (Bytes × Bytes) :=
  without (ascii "Proxy-Connection") (assign fields (ascii "Connection", ascii "close"))

def editedFields (host : Bytes) (fields : List (Bytes × Bytes)) : List (Bytes × Bytes) :=
  if HostKept (hopFields fields) then hopFields fields
  else assign (hopFields fields) (ascii "Host", host)

section Edits

variable {pr : ParsedRequest}

theorem addTraceId_ok (intact : Intact pr) (time rand : UInt32) :
    ∃ pr', addTraceId time rand pr = .ok pr' ∧ Intact pr' ∧ SameLine pr pr' ∧
      pr'.fields = tracedFields time rand pr.fields := by
  rw [addTraceId, tracedFields]
  cases found : parsedHeaderGet pr (ascii "X-Trace-Id") with
  | none =>
      rw [if_neg (parsedHeaderGet_none.mp found)]
      exact intact.set _ _
  | some i =>
      have present : ascii "X-Trace-Id" ∈ keys pr.fields := by
        by_contra absent
        simp [parsedHeaderGet_none.mpr absent] at found
      rw [if_pos present]
      exact ⟨pr, rfl, intact, rfl, rfl⟩

theorem editHeaders_ok (intact : Intact pr) {name : Bytes} (host : pr.host = some (.owned name)) :
    ∃ pr', editHeaders pr = .ok pr' ∧ Intact pr' ∧ SameLine pr pr' ∧
      pr'.fields = editedFields name pr.fields := by
  obtain ⟨pr₁, set, intact₁, same₁, fields₁⟩ := intact.set (ascii "Connection") (ascii "close")
  have intact₂ := intact₁.remove (ascii "Proxy-Connection")
  have same₂ := same₁.trans (sameLine_parsedHeaderRemove pr₁ (ascii "Proxy-Connection")).1
  have fields₂ : (parsedHeaderRemove pr₁ (ascii "Proxy-Connection")).2.fields =
      hopFields pr.fields := by
    rw [intact₁.fields_remove, fields₁, hopFields]
  simp only [editHeaders, set, ok_bind]
  generalize (parsedHeaderRemove pr₁ (ascii "Proxy-Connection")).2 = pr₂ at *
  have host₂ : pr₂.host = some (.owned name) := by rw [same₂]; exact host
  have name₂ : pr₂.hostName = .ok name := by simp only [ParsedRequest.hostName, host₂]
  obtain ⟨pr₃, set₃, intact₃, same₃, fields₃⟩ := intact₂.set (ascii "Host") name
  rw [if_neg (by simp [host₂]), editedFields, ← fields₂]
  by_cases present : ascii "Host" ∈ keys pr₂.fields
  · obtain ⟨⟨key, value⟩, member, isHost⟩ := List.mem_map.mp present
    subst isHost
    have kept : HostKept pr₂.fields ↔ isLoopback value = false := by
      constructor
      · rintro ⟨⟨key, value'⟩, member', rfl, outside⟩
        obtain rfl : value = value' :=
          congrArg Prod.snd (List.inj_on_of_nodup_map intact₂.distinct member member' rfl)
        exact outside
      · exact fun outside => ⟨_, member, rfl, outside⟩
    rw [slot_some intact₂.distinct member]
    by_cases inside : isLoopback value = true
    · simp only [inside, if_true, name₂, ok_bind]
      rw [if_neg (by simp [kept, inside])]
      exact ⟨pr₃, set₃, intact₃, same₂.trans same₃, fields₃⟩
    · rw [if_pos (kept.mpr (by simpa using inside))]
      simp only [if_neg inside]
      exact ⟨pr₂, rfl, intact₂, same₂, rfl⟩
  · have notKept : ¬ HostKept pr₂.fields := by
      rintro ⟨field, member, isHost, -⟩
      exact present (isHost ▸ List.mem_map_of_mem member)
    rw [slot_none present, if_neg notKept]
    simp only [name₂, ok_bind]
    exact ⟨pr₃, set₃, intact₃, same₂.trans same₃, fields₃⟩

end Edits

/-! ## The size of the edited table -/

theorem headerText_append (fields more : List (Bytes × Bytes)) :
    (headerText (fields ++ more)).length + 2 =
      (headerText fields).length + (headerText more).length := by
  simp only [headerText, List.map_append, terminated, List.flatMap_append, List.length_append, crlf,
    List.length_cons, List.length_nil]
  omega

theorem length_headerText_without_le (key : Bytes) (fields : List (Bytes × Bytes)) :
    (headerText (without key fields)).length ≤ (headerText fields).length := by
  induction fields with
  | nil => exact le_rfl
  | cons field fields ih =>
      rw [length_headerText_cons]
      by_cases same : field.1 = key
      · have dropped : without key (field :: fields) = without key fields := by
          simp [without, same]
        rw [dropped]
        omega
      · have kept : without key (field :: fields) = field :: without key fields := by
          simp [without, same]
        rw [kept, length_headerText_cons]
        omega

theorem length_headerText_assign_le (fields : List (Bytes × Bytes)) (field : Bytes × Bytes) :
    (headerText (assign fields field)).length ≤
      (headerText fields).length + (field.1.length + field.2.length + 4) := by
  have sum := headerText_append (without field.1 fields) [field]
  have one := length_headerText_cons field []
  have empty : (headerText []).length = 2 := rfl
  have less := length_headerText_without_le field.1 fields
  rw [assign]
  omega

theorem length_editedFields_le (name : Bytes) (fields : List (Bytes × Bytes)) :
    (headerText (editedFields name fields)).length ≤
      (headerText fields).length + name.length + 27 := by
  have hop : (headerText (hopFields fields)).length ≤ (headerText fields).length + 19 :=
    (length_headerText_without_le _ _).trans (length_headerText_assign_le fields _)
  have set := length_headerText_assign_le (hopFields fields) (ascii "Host", name)
  have four : (ascii "Host").length = 4 := rfl
  rw [editedFields]
  split <;> simp only [four] at set <;> omega

/-! ## Filling the buffer -/

def filled (maxBytes : Nat) (s : Bytes) : Bytes := s ++ List.replicate (maxBytes - s.length) 0

section Buffer

variable {maxBytes : Nat} {s t : Bytes}

theorem length_filled (short : s.length < maxBytes) : (filled maxBytes s).length = maxBytes := by
  rw [filled, List.length_append, List.length_replicate]
  omega

theorem stringAt_filled (string : 0 ∉ s) (short : s.length < maxBytes) :
    stringAt (filled maxBytes s) 0 = .ok s := by
  obtain ⟨n, more⟩ := Nat.exists_eq_add_of_lt short
  have zeros : maxBytes - s.length = n + 1 := by omega
  rw [filled, zeros, List.replicate_succ]
  exact Points.stringAt ⟨[], List.replicate n 0, by simp, rfl, string⟩

theorem writeAt_filled (fits : (s ++ t).length < maxBytes) :
    writeAt (filled maxBytes s) s.length (t ++ [0]) = .ok (filled maxBytes (s ++ t)) := by
  rw [List.length_append] at fits
  have inside : s.length + (t ++ [0]).length ≤ (filled maxBytes s).length := by
    rw [length_filled (by omega), List.length_append, List.length_singleton]
    omega
  obtain ⟨n, more⟩ := Nat.exists_eq_add_of_lt fits
  have before : maxBytes - s.length = t.length + 1 + n := by omega
  have after : maxBytes - (s ++ t).length = 1 + n := by
    rw [List.length_append]
    omega
  have one : List.replicate 1 (0 : UInt8) = [0] := rfl
  rw [writeAt_ok inside, filled, filled, before, after, List.take_left, List.drop_length_add_append,
    List.length_append, List.length_singleton, List.drop_replicate, Nat.add_sub_cancel_left,
    List.replicate_add, one]
  simp

theorem writeAt_filled_fault (short : s.length < maxBytes) (long : maxBytes ≤ (s ++ t).length) :
    writeAt (filled maxBytes s) s.length (t ++ [0]) = .error .outOfBounds := by
  refine writeAt_fault ?_
  rw [length_filled short]
  rw [List.length_append] at long
  rw [List.length_append, List.length_singleton]
  omega

theorem strcat_filled (string : 0 ∉ s) (fits : (s ++ t).length < maxBytes) :
    strcat (filled maxBytes s) t = .ok (filled maxBytes (s ++ t)) := by
  have short : s.length < maxBytes := by
    rw [List.length_append] at fits
    omega
  simp only [strcat, stringAt_filled string short, ok_bind, writeAt_filled fits]

theorem strcat_bind {α : Type} {whole : Bytes} {next : Bytes → Checked α} {result : Checked α}
    (string : 0 ∉ s) (short : s.length < maxBytes) (longer : (s ++ t).length ≤ whole.length)
    (later : (s ++ t).length < maxBytes → next (filled maxBytes (s ++ t)) =
      if whole.length < maxBytes then result else .error .outOfBounds) :
    (strcat (filled maxBytes s) t >>= next) =
      if whole.length < maxBytes then result else .error .outOfBounds := by
  by_cases fits : (s ++ t).length < maxBytes
  · rw [strcat_filled string fits, ok_bind, later fits]
  · have long := Nat.le_of_not_lt fits
    simp only [strcat, stringAt_filled string short, ok_bind, writeAt_filled_fault short long,
      error_bind]
    rw [if_neg (by omega)]

end Buffer

/-! ## The function as a whole -/

def getLine (path version : Bytes) : Bytes :=
  ascii "GET " ++ (path ++ (ascii " " ++ (version ++ crlf)))

def upstreamLine (pr : ParsedRequest) : Checked Bytes := do
  let path ← readString pr.path
  let version ← pr.textAt pr.version
  return getLine path version

def upstreamText (pr : ParsedRequest) : Checked Bytes := do
  let line ← upstreamLine pr
  let pr ← editHeaders pr
  return line ++ headerText pr.fields

structure Printable (field : Bytes × Bytes) : Prop where
  string : 0 ∉ field.1 ∧ 0 ∉ field.2
  colon : 58 ∉ field.1
  clean : ¬ crlf <:+: field.2

structure Ready (pr : ParsedRequest) (name path version : Bytes) : Prop where
  held : pr.buf ≠ none
  intact : Intact pr
  isHost : pr.host = some (.owned name)
  isPath : pr.path = some path
  isVersion : pr.textAt pr.version = .ok version
  stringName : 0 ∉ name
  cleanName : ¬ crlf <:+: name
  stringPath : 0 ∉ path
  stringVersion : 0 ∉ version
  cleanLine : ¬ crlf <:+: ascii "GET " ++ (path ++ (ascii " " ++ version))
  printable : ∀ field ∈ pr.fields, Printable field
  small : (headerText pr.fields).length + name.length + 27 < 2 ^ 31

theorem forall_mem_editedFields {P : Bytes × Bytes → Prop} {fields : List (Bytes × Bytes)}
    {name : Bytes} (all : ∀ field ∈ fields, P field) (close : P (ascii "Connection", ascii "close"))
    (host : P (ascii "Host", name)) : ∀ field ∈ editedFields name fields, P field := by
  have hop : ∀ field ∈ hopFields fields, P field := fun field member =>
    forall_mem_assign all close field (mem_without.mp member).1
  rw [editedFields]
  split
  · exact hop
  · exact forall_mem_assign hop host

theorem Ready.printable_edited {pr : ParsedRequest} {name path version : Bytes}
    (ready : Ready pr name path version) :
    ∀ field ∈ editedFields name pr.fields, Printable field :=
  forall_mem_editedFields ready.printable ⟨by decide, by decide, by decide⟩
    ⟨⟨(by decide : 0 ∉ ascii "Host"), ready.stringName⟩, (by decide : 58 ∉ ascii "Host"),
      ready.cleanName⟩

theorem string_headerText {fields : List (Bytes × Bytes)}
    (printable : ∀ field ∈ fields, Printable field) : 0 ∉ headerText fields := by
  induction fields with
  | nil => decide
  | cons field fields ih =>
      obtain ⟨here, rest⟩ := List.forall_mem_cons.mp printable
      have gap : 0 ∉ ascii ": " := by decide
      have ends : 0 ∉ crlf := by decide
      simp only [headerText_cons, fieldLine, List.mem_append, not_or]
      exact ⟨⟨here.string.1, gap, here.string.2⟩, ends, ih rest⟩

section Forward

variable {maxBytes : Nat} {f : ContentFilter} {x : Exchange maxBytes} {sent : SendResult}
  {pr : ParsedRequest} {name path version : Bytes}

theorem Ready.upstreamLine_eq (ready : Ready pr name path version) :
    upstreamLine pr = .ok (getLine path version) := by
  have isPath : readString pr.path = .ok path := by rw [ready.isPath]; rfl
  simp only [upstreamLine, isPath, ready.isVersion, ok_bind]
  rfl

theorem Ready.upstreamText_eq (ready : Ready pr name path version) :
    upstreamText pr =
      .ok (getLine path version ++ headerText (editedFields name pr.fields)) := by
  obtain ⟨pr', edited, -, -, fields⟩ := editHeaders_ok ready.intact ready.isHost
  simp only [upstreamText, ready.upstreamLine_eq, edited, ok_bind, fields]
  rfl

theorem Ready.string_getLine (ready : Ready pr name path version) : 0 ∉ getLine path version := by
  have get : 0 ∉ ascii "GET " := by decide
  have space : 0 ∉ ascii " " := by decide
  have ends : 0 ∉ crlf := by decide
  simp [getLine, get, space, ends, ready.stringPath, ready.stringVersion]

theorem Ready.buffer_eq (ready : Ready pr name path version) {α : Type}
    (next : Bytes → Checked α) : (do
      let buffer ← writeAt (List.replicate maxBytes 0) 0 (ascii "GET " ++ [0])
      let buffer ← strcat buffer (← readString pr.path)
      let buffer ← strcat buffer (ascii " ")
      let buffer ← strcat buffer (← pr.textAt pr.version)
      let buffer ← strcat buffer crlf
      next buffer) =
        if (getLine path version).length < maxBytes then
          next (filled maxBytes (getLine path version))
        else .error .outOfBounds := by
  have isPath : readString pr.path = .ok path := by rw [ready.isPath]; rfl
  have space : 0 ∉ ascii " " := by decide
  have first : 0 ∉ ascii "GET " := by decide
  have second : 0 ∉ ascii "GET " ++ path := List.not_mem_append first ready.stringPath
  have third : 0 ∉ ascii "GET " ++ path ++ ascii " " := List.not_mem_append second space
  have fourth : 0 ∉ ascii "GET " ++ path ++ ascii " " ++ version :=
    List.not_mem_append third ready.stringVersion
  have whole : ascii "GET " ++ path ++ ascii " " ++ version ++ crlf = getLine path version := by
    simp only [getLine, List.append_assoc]
  simp only [isPath, ready.isVersion, ok_bind]
  rw [← whole]
  by_cases short : (ascii "GET ").length < maxBytes
  · have started : writeAt (List.replicate maxBytes 0) 0 (ascii "GET " ++ [0]) =
        .ok (filled maxBytes (ascii "GET ")) := @writeAt_filled maxBytes [] (ascii "GET ") short
    rw [started, ok_bind]
    refine strcat_bind first short ?_ fun short => strcat_bind second short ?_ fun short =>
      strcat_bind third short ?_ fun short => strcat_bind fourth short ?_ fun short => ?_
    case refine_5 => rw [if_pos short]
    all_goals
      simp only [List.length_append]
      omega
  · have long : maxBytes ≤ ([] ++ ascii "GET ").length := Nat.le_of_not_lt short
    have fault : writeAt (List.replicate maxBytes 0) 0 (ascii "GET " ++ [0]) =
        .error .outOfBounds := by
      by_cases empty : maxBytes = 0
      · subst empty
        rfl
      · exact @writeAt_filled_fault maxBytes [] _ (Nat.pos_of_ne_zero empty) long
    rw [fault, error_bind, if_neg]
    simp only [List.length_append] at long ⊢
    omega

theorem unparseHeaders_filled {line : Bytes} (held : pr.buf ≠ none)
    (small : (headerText pr.fields).length < 2 ^ 31) (fits : line.length < maxBytes) :
    parsedRequestUnparseHeaders pr (filled maxBytes line) line.length (maxBytes - line.length) =
      if (line ++ headerText pr.fields).length = maxBytes then .error .outOfBounds
      else if (line ++ headerText pr.fields).length < maxBytes then
        .ok (0, filled maxBytes (line ++ headerText pr.fields))
      else .ok (-1, filled maxBytes line) := by
  simp only [parsedRequestUnparseHeaders, if_neg held, printHeaders_eq, headersLen_eq held small]
  have sum : (line ++ headerText pr.fields).length =
      line.length + (headerText pr.fields).length := List.length_append
  by_cases long : maxBytes < (line ++ headerText pr.fields).length
  · rw [if_pos (by omega), if_neg (by omega), if_neg (by omega)]
    rfl
  · rw [if_neg (by omega)]
    by_cases full : (line ++ headerText pr.fields).length = maxBytes
    · rw [if_pos full, writeAt_filled_fault fits full.ge]
      rfl
    · rw [if_neg full, if_pos (by omega), writeAt_filled (by omega)]
      rfl

theorem Ready.forwardRequest_eq (ready : Ready pr name path version)
    (fits : (getLine path version).length < maxBytes) {text : Bytes}
    (isText : text = getLine path version ++ headerText (editedFields name pr.fields)) :
    forwardRequest f x sent pr =
      if text.length = maxBytes then .error .outOfBounds
      else do
        let port ← endServerPort pr
        let request := if text.length < maxBytes then text else getLine path version
        if x.connected = false then
          return ⟨(name, port), none, [], handleRequest f x⟩
        match sent.taken with
        | none =>
            return ⟨(name, port), some request, [], handleRequest f { x with requestSent := false }⟩
        | some n =>
            return ⟨(name, port), some request, request.take n,
              handleRequest f { x with requestSent := true }⟩ := by
  obtain ⟨pr', edited, intact, same, fields⟩ := editHeaders_ok ready.intact ready.isHost
  have isName : pr'.hostName = .ok name := by
    have host : pr'.host = some (.owned name) := by rw [same]; exact ready.isHost
    simp only [ParsedRequest.hostName, host]
  have isPort : endServerPort pr' = endServerPort pr := by
    have port : pr'.port = pr.port := by rw [same]
    simp only [endServerPort, port]
  have held : pr'.buf ≠ none := by rw [same]; exact ready.held
  have small : (headerText pr'.fields).length < 2 ^ 31 := by
    have less := length_editedFields_le name pr.fields
    have bound := ready.small
    rw [fields]
    omega
  have string : 0 ∉ text := by
    rw [isText, List.mem_append, not_or]
    exact ⟨ready.string_getLine, string_headerText ready.printable_edited⟩
  rw [forwardRequest, ready.buffer_eq, if_pos fits]
  simp only [stringAt_filled ready.string_getLine fits, edited, ok_bind,
    unparseHeaders_filled held small fits, fields, ← isText]
  by_cases full : text.length = maxBytes
  · simp only [if_pos full, error_bind]
  · simp only [if_neg full]
    by_cases room : text.length < maxBytes
    · simp only [if_pos room, ok_bind, isName, isPort, stringAt_filled string room]
    · simp only [if_neg room, ok_bind, isName, isPort, stringAt_filled ready.string_getLine fits]

theorem forwardRequest_unconnected (unconnected : x.connected = false) {r : Forwarded}
    (done : forwardRequest f x sent pr = .ok r) : r.toUpstream = [] := by
  rw [forwardRequest] at done
  iterate 12 obtain ⟨_, -, done⟩ := exists_of_bind done
  rw [if_pos unconnected] at done
  exact (Except.ok.inj done) ▸ rfl

def Sends (P : Bytes × Int → Bytes → Prop) (result : Checked Forwarded) : Prop :=
  ∃ r, result = .ok r ∧ ∀ request ∈ r.request, P r.target request

theorem Ready.sends_iff (ready : Ready pr name path version) {line text : Bytes}
    (isLine : line = getLine path version)
    (isText : text = line ++ headerText (editedFields name pr.fields))
    {P : Bytes × Int → Bytes → Prop} :
    Sends P (forwardRequest f x sent pr) ↔
      line.length < maxBytes ∧ text.length ≠ maxBytes ∧ ∃ n, endServerPort pr = .ok n ∧
        (x.connected = true → P (name, n) (if text.length < maxBytes then text else line)) := by
  subst isLine
  by_cases fits : (getLine path version).length < maxBytes
  · rw [ready.forwardRequest_eq fits isText, and_iff_right fits]
    by_cases full : text.length = maxBytes
    · simp [Sends, full]
    rw [if_neg full, and_iff_right full]
    cases endServerPort pr with
    | error fault => simp [Sends, error_bind]
    | ok port =>
        simp only [ok_bind, Except.ok.injEq, exists_eq_left']
        by_cases connected : x.connected = false
        · rw [if_pos connected]
          exact iff_of_true ⟨_, rfl, by simp⟩ (by simp [connected])
        · rw [if_neg connected]
          simp only [Bool.not_eq_false] at connected
          cases sent.taken <;> simp [Sends, pure, Except.pure, connected]
  · rw [forwardRequest, ready.buffer_eq, if_neg fits]
    simp [Sends, fits]

end Forward

/-! ## Complete or not sent -/

section Accepted

variable {errno : Int} {port : Port} {pr pr' : ParsedRequest} {buf : Bytes}

theorem ready_of_accepted
    (accepted : parsedRequestParse errno (newRequest port) buf = .ok (0, pr))
    (isGet : pr.textAt pr.method = .ok (ascii "GET")) :
    ∃ name path version, Ready pr name path version ∧
      (headerText pr.fields).length + name.length + 57 < 2 ^ 31 ∧
      (getLine path version).length < buf.length := by
  obtain ⟨p, parsed⟩ := exists_parts accepted
  have isGet' : p.method = ascii "GET" := by
    refine parsed.of.known.resolve_right fun isConnect => ?_
    have connect := (parsed.of.connect isConnect accepted).1
    exact absurd (isGet.symm.trans connect) (by simp [ascii])
  obtain ⟨-, isVersion, result⟩ := parsed.of.get isGet' accepted
  obtain ⟨path, isPath, solid, shortPath⟩ := result.path parsed.of
  obtain ⟨name, isHost, stringName, cleanName, shortName⟩ := result.name parsed
  have small := small_of_accepted accepted
  obtain ⟨-, lengths⟩ := parsed.of.length_le
  have spaced := List.length_pos_of_ne_nil parsed.of.http.spaced
  have three : p.method.length = 3 := congrArg List.length isGet'
  refine ⟨name, 47 :: path, p.after.tail,
    { held := held_of_accepted accepted
      intact := parsed.intact
      isHost := isHost
      isPath := isPath
      isVersion := isVersion
      stringName := stringName
      cleanName := cleanName
      stringPath := solid.string
      stringVersion := fun zero => parsed.of.solid.2.1 (List.mem_of_mem_tail zero)
      cleanLine := ?_
      printable := fun field member => by
        obtain ⟨string, colon, clean, -⟩ := parsed.field member
        exact ⟨string, colon, clean⟩
      small := by omega }, by omega, ?_⟩
  · have cleanVersion : ¬ crlf <:+: p.after.tail := fun broken =>
      parsed.of.solid.2.2 (broken.trans (List.tail_suffix _).isInfix)
    have get : ¬ crlf <:+: ascii "GET " := by decide
    have space : ¬ crlf <:+: ascii " " := by decide
    refine clean_append get (clean_append solid.clean (clean_append space cleanVersion ?_) ?_) ?_
    all_goals simp [ascii]
  have four : (ascii "GET ").length = 4 := rfl
  have one : (ascii " ").length = 1 := rfl
  simp only [getLine, List.length_append, List.length_cons, List.length_tail, crlf,
    List.length_nil, four, one]
  omega

theorem length_tracedFields_le (time rand : UInt32) (fields : List (Bytes × Bytes)) :
    (headerText (tracedFields time rand fields)).length ≤ (headerText fields).length + 30 := by
  rw [tracedFields]
  split
  · omega
  · exact length_headerText_assign_le fields _

theorem hexDigit_plain {n : Nat} (small : n < 16) : hexDigit n ≠ 0 ∧ hexDigit n ≠ 13 := by
  decide +revert

theorem printable_traceId (time rand : UInt32) :
    Printable (ascii "X-Trace-Id", traceIdStr time rand) := by
  have plain : ∀ c ∈ traceIdStr time rand, c ≠ 0 ∧ c ≠ 13 := by
    intro c member
    rw [traceIdStr, List.mem_append] at member
    rcases member with member | member <;>
    · obtain ⟨place, -, rfl⟩ := List.mem_map.mp member
      exact hexDigit_plain (Nat.mod_lt _ (by decide))
  exact ⟨⟨(by decide : 0 ∉ ascii "X-Trace-Id"), fun zero => (plain 0 zero).1 rfl⟩,
    (by decide : 58 ∉ ascii "X-Trace-Id"), notInfix_of_notMem fun broken => (plain 13 broken).2 rfl⟩

theorem ready_of_traced {name path version : Bytes} {time rand : UInt32}
    (ready : Ready pr name path version)
    (room : (headerText pr.fields).length + name.length + 57 < 2 ^ 31)
    (traced : addTraceId time rand pr = .ok pr') :
    Ready pr' name path version ∧ pr'.fields = tracedFields time rand pr.fields ∧
      pr'.port = pr.port := by
  obtain ⟨pr₁, isTraced, intact, same, fields⟩ := addTraceId_ok ready.intact time rand
  obtain rfl := Except.ok.inj (isTraced.symm.trans traced)
  have less := length_tracedFields_le time rand pr.fields
  refine ⟨⟨by rw [same]; exact ready.held, intact, by rw [same]; exact ready.isHost,
    by rw [same]; exact ready.isPath, by rw [same]; exact ready.isVersion, ready.stringName,
    ready.cleanName, ready.stringPath, ready.stringVersion, ready.cleanLine, ?_,
    by rw [fields]; omega⟩, fields, by rw [same]⟩
  rw [fields, tracedFields]
  split
  · exact ready.printable
  · exact forall_mem_assign ready.printable (printable_traceId time rand)

def CompleteOrUnsent (text : Bytes) (result : Checked Forwarded) : Prop :=
  ∃ r, result = .ok r ∧ (r.toUpstream = text ∨ r.toUpstream = [] ∧ r.handled.ret = -1)

theorem endServerPort_ok_iff (pr : ParsedRequest) :
    (∃ n, endServerPort pr = .ok n) ↔ ∃ p, pr.port.text = .ok p := by
  cases isPort : pr.port.text with
  | error fault => simp [endServerPort, isPort, error_bind]
  | ok p => cases p <;> simp [endServerPort, isPort, ok_bind, pure, Except.pure]

theorem take_request_iff {line rest text : Bytes} {maxBytes n : Nat} (isText : text = line ++ rest)
    (more : rest ≠ []) :
    (if text.length < maxBytes then text else line).take n = text ↔
      text.length < maxBytes ∧ text.length ≤ n := by
  by_cases room : text.length < maxBytes
  · rw [if_pos room, and_iff_right room, List.take_eq_self_iff]
  · rw [if_neg room]
    refine iff_of_false (fun whole => ?_) fun both => room both.1
    have lengths := congrArg List.length whole
    have some := List.length_pos_of_ne_nil more
    rw [isText, List.length_append, List.length_take] at lengths
    omega

theorem headerText_ne_nil (fields : List (Bytes × Bytes)) : headerText fields ≠ [] := by
  simp [headerText, crlf]

section Sent

variable {maxBytes : Nat} {f : ContentFilter} {x : Exchange maxBytes} {sent : SendResult}
  {name path version text : Bytes}

theorem Ready.completeOrUnsent_iff (ready : Ready pr name path version)
    (fits : (getLine path version).length < maxBytes)
    (isText : text = getLine path version ++ headerText (editedFields name pr.fields)) :
    CompleteOrUnsent text (forwardRequest f x sent pr) ↔
      (∃ p, pr.port.text = .ok p) ∧ text.length ≠ maxBytes ∧
        (x.connected = true → ∀ n ∈ sent.taken, text.length < maxBytes ∧ text.length ≤ n) := by
  rw [ready.forwardRequest_eq fits isText, ← endServerPort_ok_iff]
  by_cases full : text.length = maxBytes
  · simp [CompleteOrUnsent, full]
  rw [if_neg full]
  cases isPort : endServerPort pr with
  | error fault => simp [CompleteOrUnsent, error_bind]
  | ok port =>
      simp only [ok_bind, full, ne_eq, not_false_eq_true, true_and, Except.ok.injEq, exists_eq']
      by_cases connected : x.connected = false
      · have unreached : x.reached = false := by simp [Exchange.reached, connected]
        rw [if_pos connected]
        exact iff_of_true ⟨_, rfl, .inr ⟨rfl, by rw [handleRequest_unreached unreached]⟩⟩
          (by simp [connected])
      · rw [if_neg connected]
        cases taken : sent.taken with
        | none =>
            have unreached : { x with requestSent := false }.reached = false := by
              simp [Exchange.reached]
            exact iff_of_true ⟨_, rfl, .inr ⟨rfl, by rw [handleRequest_unreached unreached]⟩⟩
              (by simp)
        | some n =>
            have positive : n ≠ 0 := (sent.positive n taken).ne'
            have more := headerText_ne_nil (editedFields name pr.fields)
            have line : getLine path version ≠ [] := by simp [getLine, ascii]
            have nonempty :
                (if text.length < maxBytes then text else getLine path version) ≠ [] := by
              split
              · simp [isText, line]
              · exact line
            have whole := @take_request_iff _ _ _ maxBytes n isText more
            simp [CompleteOrUnsent, pure, Except.pure, List.take_eq_nil_iff, positive, nonempty,
              whole, connected]

/-- The request that is sent is complete exactly when the edited headers fit after the request
line and `send` takes all of it. -/
theorem forwardRequest_complete_iff {time rand : UInt32}
    (accepted : parsedRequestParse errno (newRequest port) buf = .ok (0, pr))
    (isGet : pr.textAt pr.method = .ok (ascii "GET")) (short : buf.length < maxBytes)
    (traced : addTraceId time rand pr = .ok pr') (isText : upstreamText pr' = .ok text) :
    CompleteOrUnsent text (forwardRequest f x sent pr') ↔
      (∃ p, pr'.port.text = .ok p) ∧ text.length ≠ maxBytes ∧
        (x.connected = true → ∀ n ∈ sent.taken, text.length < maxBytes ∧ text.length ≤ n) := by
  obtain ⟨name, path, version, ready, room, fits⟩ := ready_of_accepted accepted isGet
  obtain ⟨ready', -⟩ := ready_of_traced ready room traced
  exact ready'.completeOrUnsent_iff (fits.trans short)
    (Except.ok.inj (isText.symm.trans ready'.upstreamText_eq))

end Sent

end Accepted

/-! ## A run -/

def unanswered (maxBytes : Nat) : Exchange maxBytes := ⟨true, true, true, [], .closed⟩

def unfiltered : ContentFilter := ⟨false, [], []⟩

def takes (n : Nat) : SendResult := ⟨some (n + 1), by simp⟩

structure Trace where
  method : Bytes
  line : Bytes
  text : Bytes
  host : Option Bytes
  port : Int
  fields : List (Bytes × Bytes)
  forwarded : Forwarded
  deriving DecidableEq

def trace (maxBytes : Nat) (buf : Bytes) : Checked (Int × Trace) := do
  let (ret, pr) ← parsedRequestParse 0 (newRequest .null) buf
  let method ← pr.textAt pr.method
  let pr' ← addTraceId 1 2 pr
  let line ← upstreamLine pr'
  let text ← upstreamText pr'
  let port ← endServerPort pr'
  let forwarded ← forwardRequest unfiltered (unanswered maxBytes) (takes maxBytes) pr'
  return (ret, ⟨method, line, text, pr'.hostText, port, pr'.fields, forwarded⟩)

structure Trace.Of (maxBytes : Nat) (buf : Bytes) (t : Trace) (pr pr' : ParsedRequest) : Prop where
  accepted : parsedRequestParse 0 (newRequest .null) buf = .ok (0, pr)
  isMethod : pr.textAt pr.method = .ok t.method
  traced : addTraceId 1 2 pr = .ok pr'
  isLine : upstreamLine pr' = .ok t.line
  isText : upstreamText pr' = .ok t.text
  isHost : pr'.hostText = t.host
  isPort : endServerPort pr' = .ok t.port
  fields : pr'.fields = t.fields
  forwarded : forwardRequest unfiltered (unanswered maxBytes) (takes maxBytes) pr' = .ok t.forwarded

theorem exists_trace {maxBytes : Nat} {buf : Bytes} {t : Trace}
    (done : trace maxBytes buf = .ok (0, t)) : ∃ pr pr', t.Of maxBytes buf pr pr' := by
  obtain ⟨⟨ret, pr⟩, accepted, done⟩ := exists_of_bind done
  obtain ⟨method, isMethod, done⟩ := exists_of_bind done
  obtain ⟨pr', traced, done⟩ := exists_of_bind done
  obtain ⟨line, isLine, done⟩ := exists_of_bind done
  obtain ⟨text, isText, done⟩ := exists_of_bind done
  obtain ⟨port, isPort, done⟩ := exists_of_bind done
  obtain ⟨forwarded, isForwarded, done⟩ := exists_of_bind done
  obtain ⟨rfl, rfl⟩ := Prod.mk.inj (Except.ok.inj done)
  exact ⟨pr, pr', accepted, isMethod, traced, isLine, isText, rfl, isPort, rfl, isForwarded⟩

def rootRequest : Bytes := ascii "GET http://a/ HTTP/1.1\r\n\r\n"

def rootText : Bytes := ascii
  "GET / HTTP/1.1\r\nX-Trace-Id: 0000000100000002\r\nConnection: close\r\nHost: a\r\n\r\n"

def rootTrace (maxBytes : Nat) (request : Bytes) : Trace where
  method := ascii "GET"
  line := ascii "GET / HTTP/1.1\r\n"
  text := rootText
  host := some (ascii "a")
  port := 80
  fields := [(ascii "X-Trace-Id", ascii "0000000100000002")]
  forwarded :=
    { target := (ascii "a", 80)
      request := some request
      toUpstream := request
      handled := handleRequest unfiltered (unanswered maxBytes) }

theorem trace_root : trace 100 rootRequest = .ok (0, rootTrace 100 rootText) := by
  decide +kernel

theorem forwardRequest_complete_root : ∃ pr pr',
    parsedRequestParse 0 (newRequest .null) rootRequest = .ok (0, pr) ∧
      addTraceId 1 2 pr = .ok pr' ∧
      CompleteOrUnsent rootText (forwardRequest unfiltered (unanswered 100) (takes 100) pr') := by
  obtain ⟨pr, pr', of⟩ := exists_trace trace_root
  refine ⟨pr, pr', of.accepted, of.traced,
    (forwardRequest_complete_iff of.accepted of.isMethod (by decide) of.traced of.isText).mpr
      ⟨(endServerPort_ok_iff pr').mp ⟨80, of.isPort⟩, by decide, fun _ n taken => ?_⟩⟩
  obtain rfl := Option.some.inj taken
  decide

theorem headers_notSent : ∃ pr pr' r,
    parsedRequestParse 0 (newRequest .null) rootRequest = .ok (0, pr) ∧ rootRequest.length < 50 ∧
      addTraceId 1 2 pr = .ok pr' ∧ upstreamText pr' = .ok rootText ∧
      forwardRequest unfiltered (unanswered 50) (takes 50) pr' = .ok r ∧
      r.toUpstream = ascii "GET / HTTP/1.1\r\n" ∧ r.handled.ret = 0 ∧
      ¬ CompleteOrUnsent rootText (forwardRequest unfiltered (unanswered 50) (takes 50) pr') := by
  have done : trace 50 rootRequest = .ok (0, rootTrace 50 (ascii "GET / HTTP/1.1\r\n")) := by
    decide +kernel
  obtain ⟨pr, pr', of⟩ := exists_trace done
  refine ⟨pr, pr', _, of.accepted, by decide, of.traced, of.isText, of.forwarded, rfl, rfl, ?_⟩
  rintro ⟨r, same, whole | ⟨-, unsent⟩⟩
  · obtain rfl := Except.ok.inj (of.forwarded.symm.trans same)
    exact absurd whole (by decide)
  · obtain rfl := Except.ok.inj (of.forwarded.symm.trans same)
    exact absurd unsent (by decide)

end ProxyServer.ProxyParse
