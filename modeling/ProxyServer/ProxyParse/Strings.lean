import ProxyServer.ProxyParse.FieldLines

namespace ProxyServer.ProxyParse
open Lib Lib.Block Lib.Lines

structure Solid (s : Bytes) : Prop where
  space : 32 ∉ s
  string : 0 ∉ s
  clean : ¬ crlf <:+: s

theorem Solid.part {s t : Bytes} (solid : Solid t) (inside : s <:+: t) : Solid s where
  space := fun h => solid.space (inside.subset h)
  string := fun h => solid.string (inside.subset h)
  clean := fun h => solid.clean (h.trans inside)

theorem Solid.append {s t : Bytes} (first : Solid s) (second : Solid t)
    (apart : s.getLast? = some 13 → t.head? ≠ some 10) : Solid (s ++ t) where
  space := by
    rw [List.mem_append, not_or]
    exact ⟨first.space, second.space⟩
  string := by
    rw [List.mem_append, not_or]
    exact ⟨first.string, second.string⟩
  clean := clean_append first.clean second.clean apart

theorem hostOf_inside (s : Bytes) : hostOf s <:+: s := by
  rw [hostOf]
  split
  · split
    · exact (List.takeWhile_prefix _).isInfix.trans (List.tail_suffix _).isInfix
    · exact List.infix_rfl
  · exact (List.takeWhile_prefix _).isInfix

theorem fieldsRead_clean {lines : List Bytes} {raw : Bytes} {field : Bytes × Bytes}
    (member : field ∈ fieldsRead lines raw) : 58 ∉ field.1 ∧ ¬ crlf <:+: field.2 := by
  induction lines with
  | nil => simp [fieldsRead] at member
  | cons line lines ih =>
      simp only [fieldsRead] at member
      split at member
      · rcases List.mem_cons.mp member with rfl | member
        · exact ⟨colon_notMem_fieldAt _, lineOf_clean _⟩
        · exact ih member
      · simp at member

section Strings

variable {errno : Int} {port : Port} {pr : ParsedRequest} {buf : Bytes} {p : Parts}

theorem Parts.Of.solid (of : p.Of buf) : Solid p.address ∧ 0 ∉ p.after ∧ ¬ crlf <:+: p.after := by
  obtain ⟨gap, gap', split, -, -, -, word, -⟩ := exists_words of.words
  obtain ⟨clean, string⟩ := of.request.first
  have address : p.address <:+: p.first :=
    ⟨gap ++ (p.method ++ 32 :: gap'), p.after, by rw [split]; simp⟩
  have after : p.after <:+: p.first :=
    ⟨gap ++ (p.method ++ 32 :: (gap' ++ p.address)), [], by rw [split]; simp⟩
  refine ⟨⟨fun space => word.2 32 space rfl, fun zero => string (address.subset zero),
    fun broken => clean (broken.trans address)⟩, fun zero => string (after.subset zero),
    fun broken => clean (broken.trans after)⟩

theorem unlayered_suffix (address : Bytes) : unlayered address <:+ address := by
  rw [unlayered]
  split
  · exact List.tail_suffix _
  · exact List.suffix_refl _

theorem Parts.Of.length_le (of : p.Of buf) : buf.length ≤ 65535 ∧
    p.method.length + p.address.length + p.after.length + 5 ≤ buf.length := by
  obtain ⟨gap, gap', split, -⟩ := exists_words of.words
  refine ⟨Nat.le_of_not_lt fun long => of.sized (.inr long), ?_⟩
  rw [of.request.text, split]
  simp only [List.length_append, List.length_cons, crlf]
  omega

theorem Parts.Parsed.field (parsed : p.Parsed buf pr) {field : Bytes × Bytes}
    (member : field ∈ pr.fields) :
    (0 ∉ field.1 ∧ 0 ∉ field.2) ∧ 58 ∉ field.1 ∧ ¬ crlf <:+: field.2 ∧
      field.2.length ≤ 65535 := by
  rw [parsed.fields] at member
  have read := mem_of_mem_latest member
  have bound := (length_fieldsRead p.lines p.body).2 field read
  have short := parsed.of.length_le.1
  rw [parsed.of.request.text] at short
  simp only [List.length_append] at short bound
  exact ⟨fieldsRead_string read, (fieldsRead_clean read).1, (fieldsRead_clean read).2, by omega⟩

theorem GetResult.path (result : GetResult errno port p.address pr) (of : p.Of buf) :
    ∃ path, pr.path = some (47 :: path) ∧ Solid (47 :: path) ∧
      path.length ≤ p.address.length := by
  have shorter := (unlayered_suffix p.address).length_le
  have solid := of.solid.1.part (unlayered_suffix p.address).isInfix
  cases result with
  | absolute protocol authority path split _ _ _ _ _ _ _ isPath =>
      rw [split] at shorter
      refine ⟨path, isPath, solid.part ?_, ?_⟩
      · rw [split]
        exact ⟨protocol ++ (ascii "://" ++ authority), [], by simp⟩
      · simp only [List.length_append, List.length_cons] at shorter
        omega
  | relative value absent member isProtocol _ _ isPath =>
      have slash : Solid [47] := ⟨by decide, by decide, by decide⟩
      by_cases slashed : (unlayered p.address).head? = some 47
      · obtain ⟨path, isAddress⟩ := List.head?_eq_some_iff.mp slashed
        rw [ProxyParse.slashed, if_pos slashed, isAddress] at isPath
        rw [isAddress, List.length_cons] at shorter
        exact ⟨path, isPath, isAddress ▸ solid, by omega⟩
      · rw [ProxyParse.slashed, if_neg slashed] at isPath
        exact ⟨unlayered p.address, isPath, slash.append solid fun last => absurd last (by decide),
          shorter⟩

theorem GetResult.name (result : GetResult errno port p.address pr) (parsed : p.Parsed buf pr) :
    ∃ name, pr.host = some (.owned name) ∧ 0 ∉ name ∧ ¬ crlf <:+: name ∧
      name.length ≤ 65535 := by
  cases result with
  | absolute protocol authority path split _ _ _ _ _ isHost _ _ =>
      obtain ⟨short, lengths⟩ := parsed.of.length_le
      have inside : hostOf authority <:+: p.address := by
        refine (hostOf_inside authority).trans (List.IsInfix.trans ?_
          (unlayered_suffix p.address).isInfix)
        rw [split]
        exact ⟨protocol ++ ascii "://", 47 :: path, by simp⟩
      have solid := parsed.of.solid.1.part inside
      have shorter := inside.length_le
      exact ⟨_, isHost, solid.string, solid.clean, by omega⟩
  | relative value absent member _ isHost _ _ =>
      obtain ⟨⟨-, string⟩, -, clean, short⟩ := parsed.field member
      have inside := hostOf_inside value
      exact ⟨_, isHost, fun zero => string (inside.subset zero),
        fun broken => clean (broken.trans inside), inside.length_le.trans short⟩

theorem GetResult.protocol_length (result : GetResult errno port p.address pr) (of : p.Of buf) :
    ∃ protocol, pr.protocol = some protocol ∧ protocol.length ≤ 65535 := by
  obtain ⟨short, lengths⟩ := of.length_le
  cases result with
  | absolute protocol authority path split _ _ _ _ isProtocol _ _ _ =>
      have shorter := (unlayered_suffix p.address).length_le
      rw [split, List.length_append] at shorter
      exact ⟨protocol, isProtocol, by omega⟩
  | relative value absent member isProtocol _ _ _ =>
      exact ⟨_, isProtocol, (by decide : (ascii "http").length ≤ 65535)⟩

theorem length_portOf {s port : Bytes} (isPort : portOf s = some port) :
    port.length ≤ s.length := by
  have colon {t : Bytes} (after : afterColon t = some port) : port.length ≤ t.length := by
    rw [afterColon] at after
    split at after
    · rw [← Option.some.inj after, List.length_drop]
      exact Nat.sub_le _ _
    · cases after
  rw [portOf] at isPort
  split at isPort
  · split at isPort
    · exact (colon isPort).trans (List.dropWhile_suffix _).length_le
    · cases isPort
  · exact colon isPort

theorem LineParts.Of.unique {l m : LineParts} (of : l.Of pr) (other : m.Of pr) : l = m := by
  obtain ⟨method, protocol, host, portGiven, path, version⟩ := l
  obtain ⟨method', protocol', host', portGiven', path', version'⟩ := m
  obtain rfl : method = method' := Except.ok.inj (of.method.symm.trans other.method)
  obtain rfl : protocol = protocol' := Option.some.inj (of.protocol.symm.trans other.protocol)
  obtain rfl : host = host' := Except.ok.inj (of.host.symm.trans other.host)
  obtain rfl : portGiven = portGiven' := Except.ok.inj (of.port.symm.trans other.port)
  obtain rfl : path = path' := Option.some.inj (of.path.symm.trans other.path)
  obtain rfl : version = version' := Except.ok.inj (of.version.symm.trans other.version)
  rfl

theorem LineParts.length_text (l : LineParts) : (l.text ++ crlf).length =
    l.method.length + l.protocol.length + l.host.length + (portText l.port).length +
      l.path.length + l.version.length + 7 := by
  have three : (ascii "://").length = 3 := rfl
  rw [text, address]
  simp only [List.length_append, List.length_cons, List.length_nil, crlf, three]
  omega

theorem GetResult.port_length (result : GetResult errno .null p.address pr)
    (parsed : p.Parsed buf pr) {given : Option Bytes} (isPort : pr.port.text = .ok given) :
    (portText given).length ≤ 65536 := by
  obtain ⟨s, isText, short⟩ : ∃ s, pr.port = (portOf s).elim .null .owned ∧ s.length ≤ 65535 := by
    cases result with
    | absolute protocol authority path split _ _ _ _ _ _ isPort' _ =>
        obtain ⟨short, lengths⟩ := parsed.of.length_le
        have shorter := (unlayered_suffix p.address).length_le
        rw [split] at shorter
        simp only [List.length_append] at shorter
        exact ⟨authority, isPort', by omega⟩
    | relative value absent member _ _ isPort' _ =>
        exact ⟨value, isPort', (parsed.field member).2.2.2⟩
  rw [isText, Port.text_elim] at isPort
  obtain rfl := Except.ok.inj isPort
  cases found : portOf s with
  | none => exact Nat.zero_le _
  | some port =>
      have bound := length_portOf found
      simp only [portText, Option.elim_some, List.length_cons]
      omega

theorem line_of_accepted
    (accepted : parsedRequestParse errno (newRequest port) buf = .ok (0, pr))
    (isGet : pr.textAt pr.method = .ok (ascii "GET")) :
    ∃ protocol host path version, (∀ given, pr.port.text = .ok given →
        LineParts.Of ⟨ascii "GET", protocol, host, given, path, version⟩ pr) ∧
      protocol.length + host.length + path.length + version.length ≤ 2 ^ 20 ∧
      ∃ p : Parts, p.Parsed buf pr ∧ GetResult errno port p.address pr := by
  obtain ⟨p, parsed⟩ := exists_parts accepted
  have isGet' : p.method = ascii "GET" := by
    refine parsed.of.known.resolve_right fun isConnect => ?_
    have connect := (parsed.of.connect isConnect accepted).1
    exact absurd (isGet.symm.trans connect) (by simp [ascii])
  obtain ⟨-, version, result⟩ := parsed.of.get isGet' accepted
  obtain ⟨protocol, isProtocol, shortProtocol⟩ := result.protocol_length parsed.of
  obtain ⟨path, isPath, -, shortPath⟩ := result.path parsed.of
  obtain ⟨host, isHost, -, -, shortHost⟩ := result.name parsed
  obtain ⟨short, lengths⟩ := parsed.of.length_le
  refine ⟨protocol, host, 47 :: path, p.after.tail, fun given isPort => ?_, ?_, p, parsed, result⟩
  · exact ⟨held_of_accepted accepted, isGet, isProtocol,
      by simp only [ParsedRequest.hostName, isHost], isPort, isPath, version⟩
  · rw [List.length_cons, List.length_tail]
    omega

theorem LineParts.Of.text_short {l : LineParts} (of : l.Of pr)
    (accepted : parsedRequestParse errno (newRequest .null) buf = .ok (0, pr))
    (isGet : pr.textAt pr.method = .ok (ascii "GET")) : (l.text ++ crlf).length < 2 ^ 21 := by
  obtain ⟨protocol, host, path, version, isLine, bound, p, parsed, result⟩ :=
    line_of_accepted accepted isGet
  have shortPort := result.port_length parsed of.port
  have three : (ascii "GET").length = 3 := rfl
  rw [of.unique (isLine _ of.port), length_text]
  dsimp only
  omega

end Strings

end ProxyServer.ProxyParse
