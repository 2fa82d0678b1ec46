import ProxyServer.ProxyParse.Authority
import ProxyServer.ProxyParse.Origin
import ProxyServer.ProxyParse.Strings

namespace ProxyServer.ProxyParse
open Lib Lib.Block Lib.Lines

/-! ## The header table -/

theorem fieldAt_append {s : Bytes} (absent : 58 ∉ s) (string : 0 ∉ s) (t : Bytes) :
    fieldAt (s ++ t) = (s ++ (fieldAt t).1, (fieldAt t).2) := by
  rw [fieldAt, fieldAt, cstr_append string, List.idxOf_append_of_notMem absent,
    List.take_length_add_append, Nat.add_assoc, List.drop_length_add_append]

theorem fieldLine_append (field : Bytes × Bytes) (rest : Bytes) :
    fieldLine field ++ rest = field.1 ++ 58 :: 32 :: (field.2 ++ rest) := by
  have two : ascii ": " = [58, 32] := rfl
  simp [fieldLine, two]

theorem fieldAt_again (text rest : Bytes) :
    fieldAt (fieldLine (fieldAt text) ++ (crlf ++ rest)) = fieldAt text := by
  obtain ⟨stringName, stringValue⟩ := fieldAt_string text
  rw [fieldLine_append]
  exact fieldAt_value (colon_notMem_fieldAt text) stringName stringValue (lineOf_clean _) 32 rest

theorem colon_mem_fieldLine (field : Bytes × Bytes) : 58 ∈ fieldLine field :=
  List.mem_append_right _ (List.mem_append_left _ (by decide))

theorem notMem_fieldLine (text : Bytes) : 0 ∉ fieldLine (fieldAt text) := by
  obtain ⟨stringName, stringValue⟩ := fieldAt_string text
  have none : 0 ∉ ascii ": " := by decide
  simp only [fieldLine, List.mem_append, not_or]
  exact ⟨stringName, none, stringValue⟩

theorem colonEnds_again (text rest : Bytes) :
    ColonEnds (fieldLine (fieldAt text) ++ (crlf ++ rest)) := by
  obtain ⟨stringName, stringValue⟩ := fieldAt_string text
  have visible : cstr (fieldLine (fieldAt text) ++ (crlf ++ rest)) =
      (fieldAt text).1 ++ 58 :: 32 :: ((fieldAt text).2 ++ (crlf ++ cstr rest)) := by
    rw [cstr_append (notMem_fieldLine text), cstr_append (by decide), fieldLine_append]
  right
  rw [visible, List.idxOf_append_of_notMem (colon_notMem_fieldAt text), List.idxOf_cons_self,
    Nat.add_zero, fieldLine_append, List.drop_length_add_append]
  have isValue : (58 :: 32 :: ((fieldAt text).2 ++ (crlf ++ rest))).drop 2 =
      (fieldAt text).2 ++ (crlf ++ rest) := rfl
  rw [isValue, cstr_append stringValue, cstr_append (by decide)]
  exact ⟨(fieldAt text).2, cstr rest, by simp⟩

section Reread

variable {lines : List Bytes} {raw : Bytes}

theorem headerLine_fieldLine {line : Bytes} (colon : 58 ∈ line) (header : HeaderLine line)
    (rest : Bytes) : HeaderLine (fieldLine (fieldAt (line ++ (crlf ++ rest)))) := by
  refine ⟨List.ne_nil_of_mem (colon_mem_fieldLine _), ?_, notMem_fieldLine _⟩
  have cleanName : ¬ crlf <:+: (fieldAt (line ++ (crlf ++ rest))).1 := by
    rw [fieldAt_name colon header]
    exact fun inside => header.2.1 (inside.trans (List.takeWhile_prefix _).isInfix)
  have cleanGap : ¬ crlf <:+: ascii ": " := by decide
  exact clean_append cleanName
    (clean_append cleanGap (lineOf_clean _) fun last => absurd last (by decide)) fun _ => by
      rw [List.head?_append_of_ne_nil _ (by decide)]
      decide

theorem exists_fieldLines (headers : ∀ line ∈ lines, HeaderLine line)
    (colon : 58 ∈ terminated lines) (raw : Bytes) :
    ∃ printed, fieldLine (fieldAt (terminated lines ++ (crlf ++ raw))) ++ crlf =
        terminated printed ∧ (∀ line ∈ printed, HeaderLine line) ∧ printed ≠ [] ∧
      (∀ last ∈ printed.getLast?, 58 ∈ last) ∧
      ∀ more raw', (∀ line ∈ more, HeaderLine line) → ∃ extra,
        fieldsRead (printed ++ more) raw' =
          fieldAt (terminated lines ++ (crlf ++ raw)) :: (extra ++ fieldsRead more raw') ∧
        keys extra ⊆ keys (fieldsRead lines.tail raw) := by
  induction lines with
  | nil => simp at colon
  | cons line lines ih =>
      obtain ⟨header, headers'⟩ := List.forall_mem_cons.mp headers
      have text : terminated (line :: lines) ++ (crlf ++ raw) =
          line ++ (crlf ++ (terminated lines ++ (crlf ++ raw))) := by simp
      rw [text, List.tail_cons]
      by_cases own : 58 ∈ line
      · have headerField := headerLine_fieldLine own header (terminated lines ++ (crlf ++ raw))
        refine ⟨[fieldLine (fieldAt (line ++ (crlf ++ (terminated lines ++ (crlf ++ raw)))))],
          by simp, by simpa using headerField, by simp, by simpa using colon_mem_fieldLine _,
          fun more raw' headers'' => ⟨[], ?_, by simp⟩⟩
        rw [List.singleton_append, fieldsRead_cons (mem_terminated_cons (colon_mem_fieldLine _) more)
          (List.forall_mem_cons.mpr ⟨headerField, headers''⟩), fieldAt_again, List.nil_append]
      · -- The name goes on through the next line.
        have absent : 58 ∉ line ++ crlf := by simp [own, crlf]
        have string : 0 ∉ line ++ crlf := by simp [header.2.2, crlf]
        have longer (rest : Bytes) : fieldAt (line ++ (crlf ++ rest)) =
            (line ++ (crlf ++ (fieldAt rest).1), (fieldAt rest).2) := by
          rw [← List.append_assoc, fieldAt_append absent string, List.append_assoc]
        have colon' : 58 ∈ terminated lines := by simpa [own, crlf] using colon
        obtain ⟨printed, isPrinted, headersPrinted, nonempty, last, reads⟩ := ih headers' colon'
        obtain ⟨first, printed, rfl⟩ := List.exists_cons_of_ne_nil nonempty
        rw [longer]
        refine ⟨line :: first :: printed, ?_, List.forall_mem_cons.mpr ⟨header, headersPrinted⟩,
          by simp, by rwa [List.getLast?_cons_cons], fun more raw' headers'' => ?_⟩
        · rw [terminated_cons, ← isPrinted, fieldLine, fieldLine]
          simp only [List.append_assoc]
        · obtain ⟨extra, isRead, within⟩ := reads more raw' headers''
          obtain ⟨next, lines, rfl⟩ : ∃ next rest, lines = next :: rest :=
            List.exists_cons_of_ne_nil fun none => by simp [none] at colon'
          have headersMore := List.forall_mem_append.mpr ⟨headersPrinted, headers''⟩
          have found : 58 ∈ terminated (first :: (printed ++ more)) := by
            have inLast := last _ (List.getLast?_eq_some_getLast nonempty)
            exact List.mem_flatMap.mpr ⟨_, List.mem_append_left _ (List.getLast_mem nonempty),
              List.mem_append_left _ inLast⟩
          have whole : 58 ∈ terminated (line :: first :: (printed ++ more)) := by
            rw [terminated_cons]
            exact List.mem_append_right _ (List.mem_append_right _ found)
          have isHead := (List.cons.inj ((fieldsRead_cons found headersMore raw').symm.trans isRead)).1
          rw [fieldsRead_cons colon' headers', keys_cons]
          refine ⟨fieldAt (terminated (next :: lines) ++ (crlf ++ raw)) :: extra, ?_, ?_⟩
          · rw [List.cons_append, List.cons_append, fieldsRead_cons whole
              (List.forall_mem_cons.mpr ⟨header, headersMore⟩), longer, List.cons_append, ← isRead]
            simp only [terminated_cons, List.append_assoc] at isHead ⊢
            rw [isHead]
            rfl
          · simp only [terminated_cons, List.append_assoc]
            exact List.cons_subset_cons _ within

theorem fieldsRead_colonless {raw' : Bytes} (headers : ∀ line ∈ lines, HeaderLine line)
    (colonless : 58 ∉ terminated lines) (colon : 58 ∈ cstr raw) (colon' : 58 ∈ cstr raw')
    (same : fieldAt raw' = fieldAt raw) : fieldsRead lines raw' = fieldsRead lines raw := by
  induction lines with
  | nil => rfl
  | cons line lines ih =>
      have strings := notMem_terminated headers
      have absent : 58 ∉ terminated (line :: lines) ++ crlf := by
        rw [List.mem_append, not_or]
        exact ⟨colonless, by decide⟩
      have string : 0 ∉ terminated (line :: lines) ++ crlf := by
        rw [List.mem_append, not_or]
        exact ⟨strings, by decide⟩
      have rest : 58 ∉ terminated lines := fun inside => colonless (by simp [inside])
      have here (text : Bytes) : fieldAt (terminated (line :: lines) ++ (crlf ++ text)) =
          (terminated (line :: lines) ++ crlf ++ (fieldAt text).1, (fieldAt text).2) := by
        rw [← List.append_assoc, fieldAt_append absent string]
      have visible (text : Bytes) (inText : 58 ∈ cstr text) :
          58 ∈ cstr (terminated (line :: lines) ++ (crlf ++ text)) :=
        (mem_cstr_terminated strings (by decide) text).mpr (.inr inText)
      rw [fieldsRead, fieldsRead, if_pos (visible raw' colon'), if_pos (visible raw colon), here,
        here, same, ih (List.forall_mem_cons.mp headers).2 rest]

theorem headerText_reread (headers : ∀ line ∈ lines, HeaderLine line) (read : LinesRead lines raw)
    (comes : ColonComes lines raw) :
    ∃ lines' raw', headerText (latest (fieldsRead lines raw)) =
        terminated lines' ++ (crlf ++ raw') ∧
      (∀ line ∈ lines', HeaderLine line) ∧ LinesRead lines' raw' ∧ ColonComes lines' raw' ∧
      latest (fieldsRead lines' raw') = latest (fieldsRead lines raw) := by
  induction lines with
  | nil => exact ⟨[], [], rfl, by simp, .inl (by simp), .inl (by simp), rfl⟩
  | cons line lines ih =>
      obtain ⟨header, headers'⟩ := List.forall_mem_cons.mp headers
      have strings := notMem_terminated headers
      have more : 58 ∈ terminated (line :: lines) ∨ 58 ∈ cstr raw := by
        refine comes.imp_left fun last => ?_
        have found := last _ (List.getLast?_eq_some_getLast (by simp))
        exact List.mem_flatMap.mpr ⟨_, List.getLast_mem (by simp), List.mem_append_left _ found⟩
      obtain ⟨lines', raw', isText, headersText, read', comes', same⟩ :=
        ih headers' read.tail ((colonComes_cons more).mp comes)
      have stored : fieldsRead (line :: lines) raw =
          fieldAt (terminated (line :: lines) ++ (crlf ++ raw)) :: fieldsRead lines raw :=
        if_pos ((mem_cstr_terminated strings (by decide) raw).mpr more)
      by_cases later : (fieldAt (terminated (line :: lines) ++ (crlf ++ raw))).1 ∈
          keys (fieldsRead lines raw)
      · rw [stored, latest_cons_of_mem later]
        exact ⟨lines', raw', isText, headersText, read', comes', same⟩
      · rw [stored, latest_cons_of_notMem later, headerText_cons, isText]
        by_cases colon : 58 ∈ terminated (line :: lines)
        · obtain ⟨printed, isPrinted, headersPrinted, nonempty, last, reads⟩ :=
            exists_fieldLines headers colon raw
          obtain ⟨extra, isRead, within⟩ := reads lines' raw' headersText
          have lastColon (ends : Prop) (ended : (∀ last ∈ lines'.getLast?, 58 ∈ last) ∨ ends) :
              (∀ last ∈ (printed ++ lines').getLast?, 58 ∈ last) ∨ ends := by
            refine ended.imp_left fun colons => ?_
            cases lines' with
            | nil => rwa [List.append_nil]
            | cons _ _ => rwa [List.getLast?_append_of_ne_nil _ (by simp)]
          refine ⟨printed ++ lines', raw', ?_, List.forall_mem_append.mpr
            ⟨headersPrinted, headersText⟩, lastColon _ read', lastColon _ comes', ?_⟩
          · rw [← List.append_assoc, isPrinted, terminated, terminated, terminated,
              List.flatMap_append, List.append_assoc]
          · have sameKeys : ∀ key, key ∈ keys (fieldsRead lines' raw') ↔
                key ∈ keys (fieldsRead lines raw) := by
              intro key
              rw [← mem_keys_latest, same, mem_keys_latest]
            have within' : keys extra ⊆ keys (fieldsRead lines' raw') := fun key inside =>
              (sameKeys key).mpr (within inside)
            rw [isRead, latest_cons_of_notMem, latest_append_of_subset within', same]
            rw [keys_append, List.mem_append]
            rintro (inside | inside)
            · exact later (within inside)
            · exact later ((sameKeys _).mp inside)
        · have inBody := more.resolve_left colon
          have absent : 58 ∉ terminated (line :: lines) ++ crlf := by
            rw [List.mem_append, not_or]
            exact ⟨colon, by decide⟩
          have string : 0 ∉ terminated (line :: lines) ++ crlf := by
            rw [List.mem_append, not_or]
            exact ⟨strings, by decide⟩
          have isField : fieldAt (terminated (line :: lines) ++ (crlf ++ raw)) =
              (terminated (line :: lines) ++ crlf ++ (fieldAt raw).1, (fieldAt raw).2) := by
            rw [← List.append_assoc, fieldAt_append absent string]
          have again := fieldAt_again raw (terminated lines' ++ (crlf ++ raw'))
          have visible : 58 ∈ cstr (fieldLine (fieldAt raw) ++
              (crlf ++ (terminated lines' ++ (crlf ++ raw')))) := by
            rw [cstr_append (notMem_fieldLine raw)]
            exact List.mem_append_left _ (colon_mem_fieldLine _)
          refine ⟨line :: lines, _, ?_, headers, .inr (colonEnds_again raw _), .inr visible, ?_⟩
          · rw [isField, fieldLine, fieldLine]
            simp only [List.append_assoc]
          · rw [fieldsRead_colonless headers colon inBody visible again, stored,
              latest_cons_of_notMem later]

end Reread

/-! ## The request line -/

structure Scheme (s : Bytes) : Prop where
  found : ∀ rest, memmem (s ++ (ascii "://" ++ rest)) (ascii "://") = some (ascii "://" ++ rest)
  whole : ∀ rest, unlayered (s ++ (ascii "://" ++ rest)) = s ++ (ascii "://" ++ rest)

theorem scheme_http : Scheme (ascii "http") where
  found rest := memmem_http rest
  whole _ := rfl

theorem unlayered_starts (address : Bytes) :
    ¬ ascii "/http://" <+: unlayered address ∧ ¬ ascii "/https://" <+: unlayered address := by
  rw [unlayered]
  split
  · rename_i layered
    have slash : ∀ s, ¬ 47 :: s <+: address.tail := by
      rw [Bool.or_eq_true, List.isPrefixOf_iff_prefix, List.isPrefixOf_iff_prefix] at layered
      rintro s ⟨rest, starts⟩
      rcases layered with ⟨more, rfl⟩ | ⟨more, rfl⟩ <;> simp [ascii] at starts
    exact ⟨slash _, slash _⟩
  · rename_i plain
    rw [Bool.or_eq_true, List.isPrefixOf_iff_prefix, List.isPrefixOf_iff_prefix, not_or] at plain
    exact plain

theorem first_scheme_unique {s t rest rest' : Bytes}
    (found : memmem (s ++ (ascii "://" ++ rest)) (ascii "://") = some (ascii "://" ++ rest))
    (found' : memmem (t ++ (ascii "://" ++ rest')) (ascii "://") = some (ascii "://" ++ rest'))
    (same : s ++ (ascii "://" ++ rest) = t ++ (ascii "://" ++ rest')) : s = t ∧ rest = rest' := by
  rw [same, found', Option.some.injEq, List.append_cancel_left_eq] at found
  subst found
  exact ⟨List.append_cancel_right same, rfl⟩

theorem Scheme.of_address {address s rest : Bytes}
    (split : unlayered address = s ++ (ascii "://" ++ rest))
    (found : memmem (unlayered address) (ascii "://") = some (ascii "://" ++ rest)) : Scheme s := by
  rw [split] at found
  obtain ⟨notHttp, notHttps⟩ := unlayered_starts address
  rw [split] at notHttp notHttps
  refine ⟨memmem_cut found, fun more => unlayered_of_single ?_ ?_⟩
  · rintro ⟨more', same⟩
    have isHttp : memmem (ascii "/http" ++ (ascii "://" ++ more')) (ascii "://") =
        some (ascii "://" ++ more') := by
      simp [ascii, memmem_cons]
    obtain ⟨isScheme, -⟩ := first_scheme_unique isHttp (memmem_cut found more) same
    exact notHttp ⟨rest, by rw [← isScheme]; rfl⟩
  · rintro ⟨more', same⟩
    have isHttps : memmem (ascii "/https" ++ (ascii "://" ++ more')) (ascii "://") =
        some (ascii "://" ++ more') := by
      simp [ascii, memmem_cons]
    obtain ⟨isScheme, -⟩ := first_scheme_unique isHttps (memmem_cut found more) same
    exact notHttps ⟨rest, by rw [← isScheme]; rfl⟩

section Line

variable {errno : Int} {port : Port} {pr : ParsedRequest} {buf : Bytes} {p : Parts}

theorem GetResult.protocol (result : GetResult errno port p.address pr) (of : p.Of buf) :
    ∃ protocol, pr.protocol = some protocol ∧ Scheme protocol ∧ Solid protocol := by
  cases result with
  | absolute protocol authority path split found _ _ _ isProtocol _ _ _ =>
      have solid := of.solid.1.part (unlayered_suffix p.address).isInfix
      exact ⟨protocol, isProtocol, .of_address split found,
        solid.part (split ▸ (List.prefix_append _ _).isInfix)⟩
  | relative value absent member isProtocol _ _ _ =>
      exact ⟨_, isProtocol, scheme_http, ⟨by decide, by decide, by decide⟩⟩

end Line

/-! ## The authority as it is printed -/

namespace Authority

def printed (a : Authority) : Bytes := a.host ++ a.portPart

variable (a : Authority)

theorem printed_notMem {c : UInt8} (other : ¬ (32 < c ∧ c < 127 ∧ c ≠ 91 ∧ c ≠ 93 ∧ c ≠ 47))
    (notColon : c ≠ 58) (notDigit : isdigit c = false) : c ∉ a.printed := by
  rw [printed, List.mem_append, not_or]
  exact ⟨a.host_notMem other, a.notMem_portPart notColon notDigit⟩

theorem printed_solid : Solid a.printed where
  space := a.printed_notMem (by decide) (by decide) (by decide)
  string := a.printed_notMem (by decide) (by decide) (by decide)
  clean := notInfix_of_notMem (a.printed_notMem (by decide) (by decide) (by decide))

theorem slash_notMem_printed : 47 ∉ a.printed :=
  a.printed_notMem (by decide) (by decide) (by decide)

theorem printed_head {c : UInt8} (first : a.printed.head? = some c) : c ∈ a.host := by
  rw [printed, List.head?_append_of_ne_nil _ a.named] at first
  exact List.mem_of_head? first

theorem hostOf_printed (rest : Option Bytes) (isPort : a.port = rest) :
    hostOf a.printed = a.host ↔ 58 ∉ a.host := by
  have plain : a.printed.head? ≠ some 91 := fun first =>
    a.host_notMem (by decide) (a.printed_head first)
  rw [hostOf, if_neg plain]
  constructor
  · intro same
    rw [← same]
    exact notMem_takeWhile
  · intro absent
    rw [printed, portPart, isPort]
    cases rest with
    | none =>
        rw [Option.elim_none, List.append_nil]
        exact takeWhile_absent absent
    | some port => exact (cut_at absent port).1

theorem portOf_printed (absent : 58 ∉ a.host) : portOf a.printed = a.port := by
  have plain : a.printed.head? ≠ some 91 := fun first =>
    a.host_notMem (by decide) (a.printed_head first)
  rw [portOf, if_neg plain, printed, portPart]
  cases a.port with
  | none =>
      rw [Option.elim_none, List.append_nil]
      exact if_neg absent
  | some port => exact afterColon_append absent port

end Authority

/-! ## The whole request -/

/-- With any buffer that is large enough, the text that is printed is parsed as the same request. -/
def RoundTrips (errno : Int) (pr : ParsedRequest) : Prop :=
  ∀ total block len, parsedRequestTotalLen pr = .ok total → total < len → len ≤ block.length →
    ∃ written pr', parsedRequestUnparse pr block 0 len = .ok (0, written) ∧
      parsedRequestParse errno (newRequest .null) (written.take total) = .ok (0, pr') ∧
      pr'.view = pr.view

section Whole

variable {errno errno' : Int} {pr : ParsedRequest} {buf : Bytes} {a : Authority}

structure Printed (pr : ParsedRequest) (a : Authority) (l : LineParts) (p : Parts)
    (path : Bytes) : Prop where
  line : l.Of pr
  isGet : l.method = ascii "GET"
  of : Sized (pr.textWith l) → p.Of (pr.textWith l)
  method : p.method = l.method
  address : p.address = l.address
  version : p.after.tail = l.version
  comes : ColonComes p.lines p.body
  fields : latest (fieldsRead p.lines p.body) = pr.fields
  scheme : Scheme l.protocol
  isPath : l.path = 47 :: path
  target : l.address = l.protocol ++ (ascii "://" ++ (a.printed ++ 47 :: path))

theorem exists_printed (accepted : parsedRequestParse errno (newRequest .null) buf = .ok (0, pr))
    (isGet : pr.textAt pr.method = .ok (ascii "GET")) (host : pr.host = some (.owned a.host))
    (port : pr.port = a.port.elim .null .owned) : ∃ l p path, Printed pr a l p path := by
  obtain ⟨q, of, comes, fields, -⟩ := exists_parts accepted
  have isGet' : q.method = ascii "GET" := by
    refine of.known.resolve_right fun isConnect => ?_
    have connect := (of.connect isConnect accepted).1
    exact absurd (isGet.symm.trans connect) (by simp [ascii])
  obtain ⟨-, version, result⟩ := of.get isGet' accepted
  obtain ⟨protocol, isProtocol, scheme, solid⟩ := result.protocol of
  obtain ⟨path, isPath, solidPath, -⟩ := result.path of
  let l : LineParts := ⟨ascii "GET", protocol, a.host, a.port, 47 :: path, q.after.tail⟩
  have isLine : l.Of pr :=
    { held := held_of_accepted accepted
      method := isGet
      protocol := isProtocol
      host := by simp only [ParsedRequest.hostName, host, l]
      port := by rw [port, Port.text_elim]
      path := isPath
      version := version }
  have isAddress : l.address = protocol ++ (ascii "://" ++ (a.printed ++ 47 :: path)) := by
    simp [LineParts.address, l, Authority.printed, portText, Authority.portPart]
  have mark : Solid (ascii "://") := ⟨by decide, by decide, by decide⟩
  have address : Solid l.address := by
    rw [isAddress]
    refine solid.append (mark.append (a.printed_solid.append solidPath ?_) ?_) ?_
    · exact fun _ => by simp
    · exact fun last => absurd last (by decide)
    · exact fun _ => by simp [ascii]
  obtain ⟨-, stringAfter, cleanAfter⟩ := of.solid
  have stringVersion : 0 ∉ q.after.tail := fun inside => stringAfter (List.mem_of_mem_tail inside)
  have cleanVersion : ¬ crlf <:+: q.after.tail := fun inside =>
    cleanAfter (inside.trans (List.tail_suffix _).isInfix)
  have word : Word (ascii "GET") := ⟨by decide, by decide +kernel⟩
  have word' : Word l.address := by
    refine ⟨by simp [isAddress, ascii], fun c inside => ?_⟩
    simpa using fun isSpace : c = 32 => address.space (isSpace ▸ inside)
  have spaced {s : Bytes} (clean : ¬ crlf <:+: s) : ¬ crlf <:+: 32 :: s :=
    clean_append (s := [32]) (by decide) clean fun last => absurd last (by decide)
  have first : ¬ crlf <:+: l.text ∧ 0 ∉ l.text := by
    constructor
    · refine clean_append (s := ascii "GET") (by decide) (spaced ?_) fun _ => by simp
      exact clean_append address.clean (spaced cleanVersion) fun _ => by simp
    · have none : 0 ∉ ascii "GET" := by decide
      simp [LineParts.text, l, address.string, stringVersion, none]
  obtain ⟨lines, raw, isText, headers, read, comes', same⟩ :=
    headerText_reread of.request.headers of.linesRead comes
  rw [← fields] at isText
  have whole : pr.textWith l = l.text ++ (crlf ++ (terminated lines ++ (crlf ++ raw))) :=
    congrArg (fun text => l.text ++ (crlf ++ text)) isText
  exact ⟨l, ⟨l.text, lines, raw, ascii "GET", l.address, 32 :: q.after.tail⟩, path,
    { line := isLine
      isGet := rfl
      of := fun sized =>
        ⟨⟨whole, first, headers⟩, sized, requestWords_eq word word' _, .inl rfl, of.http, read⟩
      method := rfl
      address := rfl
      version := rfl
      comes := comes'
      fields := same.trans fields.symm
      scheme := scheme
      isPath := rfl
      target := isAddress }⟩

namespace Printed

variable {l : LineParts} {p : Parts} {path : Bytes}

theorem found (printed : Printed pr a l p path) :
    unlayered p.address = l.protocol ++ (ascii "://" ++ (a.printed ++ 47 :: path)) ∧
      memmem (unlayered p.address) (ascii "://") =
        some (ascii "://" ++ (a.printed ++ 47 :: path)) := by
  rw [printed.address, printed.target, printed.scheme.whole, printed.scheme.found]
  exact ⟨rfl, rfl⟩

theorem accepted_iff (printed : Printed pr a l p path) (http : HttpVersion p.after) :
    Accepted errno p.method p.address p.after ↔ ¬ BadPort errno a.printed := by
  have other : p.method ≠ ascii "CONNECT" := by
    rw [printed.method, printed.isGet]
    decide
  have isRest : (ascii "://" ++ (a.printed ++ 47 :: path)).drop 3 = a.printed ++ 47 :: path := rfl
  have start : (a.printed ++ 47 :: path).head? ≠ some 47 := fun slash => by
    rw [List.head?_append_of_ne_nil _ (by simp [Authority.printed, a.named])] at slash
    exact a.slash_notMem_printed (List.mem_of_head? slash)
  rw [Accepted, and_iff_right http, if_neg other]
  simp only [GetAccepted, printed.found.2, Option.some.injEq, forall_eq', isRest,
    (cut_at a.slash_notMem_printed path).1]
  exact ⟨fun all => all.2.2, fun good => ⟨by simp, start, good⟩⟩

theorem reparsed (printed : Printed pr a l p path) {pr' : ParsedRequest}
    (accepted : parsedRequestParse errno (newRequest .null) (pr.textWith l) = .ok (0, pr')) :
    pr'.view = { pr.view with
      host := some (hostOf a.printed), port := (portOf a.printed).elim .null .owned } := by
  have of := printed.of (sized_of_accepted accepted).1
  obtain ⟨method, address, after, of', -, fields, -⟩ := of.request.parts_of accepted
  obtain ⟨rfl, rfl, rfl⟩ : method = p.method ∧ address = p.address ∧ after = p.after := by
    simpa using of'.words.symm.trans of.words
  have isGet := printed.method.trans printed.isGet
  obtain ⟨method, version, result⟩ := of.get isGet accepted
  obtain ⟨isTarget, isFound⟩ := printed.found
  cases result with
  | relative _ absent _ _ _ _ _ => exact absurd (isFound.symm.trans absent) (by simp)
  | absolute protocol authority path' split found nonempty absent good isProtocol isHost isPort
        isPath =>
      have same := List.append_cancel_left (Option.some.inj (isFound.symm.trans found))
      obtain rfl : a.printed = authority := by
        rw [← (cut_at a.slash_notMem_printed path).1, same]
        exact (cut_at absent path').1
      obtain rfl : path = path' := by simpa using same
      obtain rfl : l.protocol = protocol :=
        List.append_cancel_right (isTarget.symm.trans split)
      have isMethod : pr.textAt pr.method = .ok (ascii "GET") := printed.isGet ▸ printed.line.method
      rw [ParsedRequest.view, ParsedRequest.view, View.mk.injEq]
      refine ⟨?_, ?_, ?_, isPort, ?_, ?_, ?_⟩
      · rw [method, isMethod]
      · rw [isProtocol, printed.line.protocol]
      · simp only [ParsedRequest.hostText, isHost]
      · rw [isPath, printed.line.path, printed.isPath]
      · rw [version, printed.line.version, printed.version]
      · exact fields.trans printed.fields

end Printed

/-- An accepted `GET` with a well-formed authority round-trips exactly when the host has no colon,
the text is not too long and the port is not refused. -/
theorem roundTrips_iff {total : Nat}
    (accepted : parsedRequestParse errno (newRequest .null) buf = .ok (0, pr))
    (isGet : pr.textAt pr.method = .ok (ascii "GET")) (host : pr.host = some (.owned a.host))
    (port : pr.port = a.port.elim .null .owned) (length : parsedRequestTotalLen pr = .ok total) :
    RoundTrips errno' pr ↔ 58 ∉ a.host ∧ total ≤ MAX_REQ_LEN ∧ ¬ BadPort errno' a.printed := by
  obtain ⟨l, p, path, printed⟩ := exists_printed accepted isGet host port
  have small : (headerText pr.fields).length < 2 ^ 31 := by
    have bound := small_of_accepted accepted
    omega
  have short : (pr.textWith l).length < 2 ^ 64 := by
    have line := printed.line.text_short accepted isGet
    rw [ParsedRequest.textWith, ← List.append_assoc, List.length_append]
    omega
  have total' := printed.line.totalLen_eq small short
  obtain rfl : (pr.textWith l).length = total := Except.ok.inj (total'.symm.trans length)
  have isHost : pr.view.host = some a.host := by
    simp only [ParsedRequest.view, ParsedRequest.hostText, host]
  have long : 4 ≤ (pr.textWith l).length := by
    simp only [ParsedRequest.textWith, headerText, List.length_append, crlf, List.length_cons,
      List.length_nil]
    omega
  constructor
  · intro roundTrips
    obtain ⟨written, pr', isWritten, reparsed, view⟩ :=
      roundTrips _ (List.replicate ((pr.textWith l).length + 1) 0) _ total' (Nat.lt_succ_self _)
        (by simp)
    obtain ⟨rest, isText⟩ := @LineParts.Of.unparse_eq _ _ printed.line small
      (List.replicate ((pr.textWith l).length + 1) 0) _ (Nat.lt_succ_self _) (by simp)
    obtain ⟨-, rfl⟩ := Prod.mk.inj (Except.ok.inj (isText.symm.trans isWritten))
    rw [List.take_left] at reparsed
    have sized := (sized_of_accepted reparsed).1
    have of := printed.of sized
    have seen := congrArg View.host ((printed.reparsed reparsed).symm.trans view)
    rw [isHost] at seen
    refine ⟨(a.hostOf_printed _ rfl).mp (Option.some.inj seen), ?_,
      (printed.accepted_iff of.http).mp (of.line_of_accepted reparsed)⟩
    exact Nat.le_of_not_lt fun long => sized (.inr long)
  · rintro ⟨colonless, short, good⟩ total block len length enough fits
    obtain rfl : (pr.textWith l).length = total := Except.ok.inj (total'.symm.trans length)
    obtain ⟨rest, isText⟩ := printed.line.unparse_eq small enough fits
    have sized : Sized (pr.textWith l) := by
      rintro (under | long)
      · exact absurd long (Nat.not_le.mpr under)
      · exact absurd short (Nat.not_le.mpr long)
    have of := printed.of sized
    have valid : Valid errno' p (keys (fieldsRead p.lines p.body)) := by
      refine ⟨(printed.accepted_iff of.http).mpr good, fun _ absent => ?_⟩
      exact absurd (printed.found.2.symm.trans absent) (by simp)
    obtain ⟨pr', reparsed, -⟩ := of.accepts printed.comes valid .null
    refine ⟨_, pr', isText, by rw [List.take_left]; exact reparsed, ?_⟩
    rw [printed.reparsed reparsed, (a.hostOf_printed _ rfl).mpr colonless,
      a.portOf_printed colonless, ← isHost, ← port]
    rfl

theorem named_roundTrips : ∃ pr,
    parsedRequestParse 0 (newRequest .null) (ascii "GET http://a:80/ HTTP/1.1\r\n\r\n") =
      .ok (0, pr) ∧ RoundTrips 0 pr := by
  have parsed : ((parsedRequestParse 0 (newRequest .null)
      (ascii "GET http://a:80/ HTTP/1.1\r\n\r\n")).toOption.map fun result =>
        (result.1, result.2.host, result.2.port)) =
      some (0, some (.owned (ascii "a")), .owned (ascii "80")) := by
    decide +kernel
  have texts : ((parsedRequestParse 0 (newRequest .null)
      (ascii "GET http://a:80/ HTTP/1.1\r\n\r\n")).toOption.map fun result =>
        (result.2.textAt result.2.method, parsedRequestTotalLen result.2)) =
      some (.ok (ascii "GET"), .ok 29) := by
    decide +kernel
  cases accepted : parsedRequestParse 0 (newRequest .null)
      (ascii "GET http://a:80/ HTTP/1.1\r\n\r\n") with
  | error fault => simp [accepted, Except.toOption] at parsed
  | ok result =>
      obtain ⟨ret, pr⟩ := result
      simp only [accepted, Except.toOption, Option.map_some, Option.some.injEq,
        Prod.mk.injEq] at parsed texts
      obtain ⟨rfl, host, port⟩ := parsed
      exact ⟨pr, rfl, (roundTrips_iff (a := named) accepted texts.1 host port texts.2).mpr
        (by decide)⟩

theorem bracketed_not_roundTrips : ∃ pr,
    parsedRequestParse 0 (newRequest .null) (ascii "GET http://[::1]/ HTTP/1.1\r\n\r\n") =
      .ok (0, pr) ∧ ¬ RoundTrips 0 pr := by
  have parsed : ((parsedRequestParse 0 (newRequest .null)
      (ascii "GET http://[::1]/ HTTP/1.1\r\n\r\n")).toOption.map fun result =>
        (result.1, result.2.hostText, parsedRequestTotalLen result.2)) =
      some (0, some (ascii "::1"), .ok 28) := by
    decide +kernel
  have printed : ((parsedRequestParse 0 (newRequest .null)
      (ascii "GET http://[::1]/ HTTP/1.1\r\n\r\n")).toOption.map fun result =>
        parsedRequestUnparse result.2 (List.replicate 29 0) 0 29) =
      some (.ok (0, ascii "GET http://::1/ HTTP/1.1\r\n\r\n" ++ [0])) := by
    decide +kernel
  have again : ((parsedRequestParse 0 (newRequest .null)
      (ascii "GET http://::1/ HTTP/1.1\r\n\r\n")).toOption.map (·.2.hostText)) =
      some (some []) := by
    decide +kernel
  cases accepted : parsedRequestParse 0 (newRequest .null)
      (ascii "GET http://[::1]/ HTTP/1.1\r\n\r\n") with
  | error fault => simp [accepted, Except.toOption] at parsed
  | ok result =>
      obtain ⟨ret, pr⟩ := result
      simp only [accepted, Except.toOption, Option.map_some, Option.some.injEq,
        Prod.mk.injEq] at parsed printed
      obtain ⟨rfl, host, length⟩ := parsed
      refine ⟨pr, rfl, fun roundTrips => ?_⟩
      obtain ⟨written, pr', isWritten, reparsed, view⟩ :=
        roundTrips 28 (List.replicate 29 0) 29 length (by decide) (by simp)
      obtain ⟨-, rfl⟩ := Prod.mk.inj (Except.ok.inj (printed.symm.trans isWritten))
      have isText : (ascii "GET http://::1/ HTTP/1.1\r\n\r\n" ++ [0]).take 28 =
          ascii "GET http://::1/ HTTP/1.1\r\n\r\n" := by decide
      rw [isText] at reparsed
      simp only [reparsed, Except.toOption, Option.map_some, Option.some.injEq] at again
      have same : pr'.hostText = pr.hostText := congrArg View.host view
      exact absurd (again.symm.trans (same.trans host)) (by decide)

end Whole

end ProxyServer.ProxyParse
