import ProxyServer.Request.Received

namespace ProxyServer.ProxyParse
open Lib Lib.Block Lib.Lines

def connection : Bytes := ascii "connection"

def proxyConnection : Bytes := ascii "proxy-connection"

def proxyAuthorization : Bytes := ascii "proxy-authorization"

section Names

variable {raw : Bytes} {line : Bytes} {lines : List Bytes}

theorem linesOf_terminated (headers : ∀ line ∈ lines, HeaderLine line) (rest : Bytes) :
    linesOf (terminated lines ++ rest) = lines ++ linesOf rest := by
  induction lines with
  | nil => rfl
  | cons line lines ih =>
      obtain ⟨header, headers'⟩ := List.forall_mem_cons.mp headers
      rw [terminated_cons, List.append_assoc, List.append_assoc, linesOf_append_crlf,
        linesOf_clean header.2.1, ih headers']
      rfl

theorem not_endsSection (headers : ∀ line ∈ lines, HeaderLine line) {name rest : Bytes}
    (split : terminated lines = name ++ 58 :: rest) : ¬ EndsSection name := by
  obtain ⟨before, last, isName, appended⟩ :=
    @linesOf_append name (58 :: rest) (by simp)
  have whole := @linesOf_terminated lines headers []
  rw [List.append_nil, split, appended] at whole
  have some : (linesOf (58 :: rest)).modifyHead (last ++ ·) ≠ [] := by
    rw [ne_eq, List.modifyHead_eq_nil_iff]
    exact linesOf_ne_nil _
  have shorter : before <+: lines := by
    have early : before <+: lines ++ linesOf [] := ⟨_, whole⟩
    refine List.prefix_of_prefix_length_le early (List.prefix_append _ _) ?_
    have lengths := congrArg List.length whole
    have positive := List.length_pos_of_ne_nil some
    have one : (linesOf []).length = 1 := rfl
    rw [List.length_append, List.length_append, one] at lengths
    omega
  rw [EndsSection, isName, List.dropLast_concat]
  exact fun empty => (headers [] (shorter.subset empty)).1 rfl

theorem endsSection_of_colonless (headers : ∀ line ∈ lines, HeaderLine line)
    (colonless : 58 ∉ terminated lines) :
    EndsSection (fieldAt (terminated lines ++ (crlf ++ raw))).1 := by
  have string := notMem_terminated headers
  have visible : cstr (terminated lines ++ (crlf ++ raw)) =
      terminated lines ++ (crlf ++ cstr raw) := by
    rw [cstr_append string, cstr_append (by decide)]
  have absent : 58 ∉ crlf := by decide
  have isName : (fieldAt (terminated lines ++ (crlf ++ raw))).1 =
      terminated lines ++ (crlf ++ (cstr raw).take ((cstr raw).idxOf 58)) := by
    rw [fieldAt, visible, List.idxOf_append_of_notMem colonless, List.idxOf_append_of_notMem absent,
      List.take_length_add_append, List.take_length_add_append]
  rw [isName, EndsSection, linesOf_terminated headers]
  have ends (rest : Bytes) : linesOf (crlf ++ rest) = [] :: linesOf rest := rfl
  rw [ends, List.dropLast_append_of_ne_nil (by simp)]
  refine List.mem_append_right _ ?_
  rw [List.dropLast_cons_of_ne_nil (linesOf_ne_nil _)]
  exact List.mem_cons_self

theorem endsSection_fieldsRead (headers : ∀ line ∈ lines, HeaderLine line)
    (colonless : 58 ∉ terminated lines) :
    ∀ field ∈ fieldsRead lines raw, EndsSection field.1 := by
  induction lines with
  | nil => simp [fieldsRead]
  | cons line lines ih =>
      have fewer : 58 ∉ terminated lines := fun inside => colonless (by
        rw [terminated_cons]
        exact List.mem_append_right _ (List.mem_append_right _ inside))
      simp only [fieldsRead]
      split
      · exact List.forall_mem_cons.mpr ⟨endsSection_of_colonless headers colonless,
          ih (List.forall_mem_cons.mp headers).2 fewer⟩
      · simp

theorem fieldsRead_ordered (headers : ∀ line ∈ lines, HeaderLine line) :
    (fieldsRead lines raw).Pairwise fun field later =>
      EndsSection field.1 → EndsSection later.1 := by
  induction lines with
  | nil => simp [fieldsRead]
  | cons line lines ih =>
      have headers' := (List.forall_mem_cons.mp headers).2
      simp only [fieldsRead]
      split
      · refine List.pairwise_cons.mpr ⟨fun later member ends => ?_, ih headers'⟩
        by_cases colon : 58 ∈ terminated (line :: lines)
        · obtain ⟨name, rest, split, absent⟩ := List.eq_append_cons_of_mem colon
          have string := notMem_terminated headers
          have isName : (fieldAt (terminated (line :: lines) ++ (crlf ++ raw))).1 = name := by
            have visible : cstr (terminated (line :: lines) ++ (crlf ++ raw)) =
                name ++ 58 :: (rest ++ cstr (crlf ++ raw)) := by
              rw [cstr_append string, split]
              simp
            rw [fieldAt, visible, List.idxOf_append_of_notMem absent, List.idxOf_cons_self,
              Nat.add_zero, List.take_left]
          rw [isName] at ends
          exact absurd ends (not_endsSection headers split)
        · refine endsSection_fieldsRead headers' (fun inside => colon ?_) later member
          rw [terminated_cons]
          exact List.mem_append_right _ (List.mem_append_right _ inside)
      · exact List.Pairwise.nil

theorem nameOf_mem_keys (headers : ∀ line ∈ lines, HeaderLine line) (member : line ∈ lines)
    (colon : 58 ∈ line) : nameOf line ∈ keys (fieldsRead lines raw) := by
  induction lines with
  | nil => simp at member
  | cons first lines ih =>
      have inside : 58 ∈ terminated (first :: lines) :=
        List.mem_flatMap.mpr ⟨line, member, List.mem_append_left _ colon⟩
      rw [fieldsRead_cons inside headers, keys_cons, List.mem_cons]
      obtain ⟨header, headers'⟩ := List.forall_mem_cons.mp headers
      rcases List.mem_cons.mp member with rfl | member
      · exact .inl (fieldAt_name colon header _).symm
      · exact .inr (ih headers' member)

theorem linesOf_nameOf (header : HeaderLine line) : linesOf (nameOf line) = [nameOf line] :=
  linesOf_clean fun broken => header.2.1 (broken.trans (List.takeWhile_prefix _).isInfix)

theorem mem_takeWhile_of_ordered {fields : List (Bytes × Bytes)} {field : Bytes × Bytes}
    (ordered : fields.Pairwise fun field later => EndsSection field.1 → EndsSection later.1)
    (member : field ∈ fields) (goesOn : ¬ EndsSection field.1) :
    field ∈ fields.takeWhile (¬ EndsSection ·.1) := by
  induction fields with
  | nil => simp at member
  | cons first fields ih =>
      obtain ⟨after, ordered'⟩ := List.pairwise_cons.mp ordered
      rcases List.mem_cons.mp member with rfl | member
      · rw [List.takeWhile_cons_of_pos (by simpa using goesOn)]
        exact List.mem_cons_self
      · have goesOn' : ¬ EndsSection first.1 := fun ends => goesOn (after field member ends)
        rw [List.takeWhile_cons_of_pos (by simpa using goesOn')]
        exact List.mem_cons_of_mem _ (ih ordered' member)

theorem valuesOf_line (headers : ∀ line ∈ lines, HeaderLine line) (member : line ∈ lines)
    (colon : 58 ∈ line) :
    valuesOf ((nameOf line).map tolower) (shown (latest (fieldsRead lines raw))) ≠ [] := by
  have clean := linesOf_nameOf (headers line member)
  have present := mem_keys_latest.mpr (@nameOf_mem_keys raw _ _ headers member colon)
  obtain ⟨⟨key, value⟩, isField, isKey⟩ := List.mem_map.mp present
  have isKey : key = nameOf line := isKey
  rw [← isKey] at clean ⊢
  have ordered := (@fieldsRead_ordered raw _ headers).sublist (latest_sublist _)
  have early := mem_takeWhile_of_ordered ordered isField (by simp [EndsSection, clean])
  have received : (key, trimOws value) ∈ shown (latest (fieldsRead lines raw)) := by
    refine List.mem_map.mpr ⟨(key, value), early, ?_⟩
    simp [shownName, clean]
  refine List.ne_nil_of_mem (a := trimOws value) (List.mem_map.mpr ⟨(key, trimOws value), ?_, rfl⟩)
  exact List.mem_filter.mpr ⟨received, by simp⟩

end Names

section Received

variable {host name : Bytes} {fields : List (Bytes × Bytes)}

theorem valuesOf_edited (other : (ascii "Host").map tolower ≠ name) :
    valuesOf name (shown (editedFields host fields)) =
      valuesOf name (shown (endToEnd fields)) ++
        if Whole fields then valuesOf name [(ascii "Connection", ascii "close")] else [] := by
  have set : valuesOf name [(ascii "Connection", ascii "close"), (ascii "Host", trimOws host)] =
      valuesOf name [(ascii "Connection", ascii "close")] := by
    rw [valuesOf_cons, valuesOf_cons, valuesOf_cons, if_neg other]
  rw [shown_editedFields]
  by_cases kept : HostKept fields
  · rw [if_pos kept, valuesOf_append]
    split <;> rfl
  · rw [if_neg kept, valuesOf_append, valuesOf_without (by decide) other]
    split
    · rw [set]
    · rfl

structure Sanitised (fields : List (Bytes × Bytes)) : Prop where
  proxyConnection : valuesOf proxyConnection fields = []
  proxyAuthorization : valuesOf proxyAuthorization fields = []
  connection : valuesOf connection fields = [ascii "close"]

/-- Nothing of the kind is left once the exact names are gone. Where a name ends the header section
the `Connection` field that is set is not received, and another spelling has to say the same. -/
structure HopsHidden (fields : List (Bytes × Bytes)) : Prop where
  proxyConnection : valuesOf ProxyParse.proxyConnection (shown (endToEnd fields)) = []
  proxyAuthorization : valuesOf ProxyParse.proxyAuthorization (shown (endToEnd fields)) = []
  connection : valuesOf ProxyParse.connection (shown (endToEnd fields)) =
    if Whole fields then [] else [ascii "close"]

theorem sanitised_iff : Sanitised (shown (editedFields host fields)) ↔ HopsHidden fields := by
  have none : valuesOf proxyConnection [(ascii "Connection", ascii "close")] = [] := by
    decide +kernel
  have none' : valuesOf proxyAuthorization [(ascii "Connection", ascii "close")] = [] := by
    decide +kernel
  have one : valuesOf connection [(ascii "Connection", ascii "close")] = [ascii "close"] := by
    decide +kernel
  have isProxyConnection := @valuesOf_edited host proxyConnection fields (by decide)
  have isProxyAuthorization := @valuesOf_edited host proxyAuthorization fields (by decide)
  have isConnection := @valuesOf_edited host connection fields (by decide)
  rw [none, ite_self, List.append_nil] at isProxyConnection
  rw [none', ite_self, List.append_nil] at isProxyAuthorization
  rw [one] at isConnection
  have same : valuesOf connection (shown (editedFields host fields)) = [ascii "close"] ↔
      valuesOf connection (shown (endToEnd fields)) =
        if Whole fields then [] else [ascii "close"] := by
    rw [isConnection]
    split <;> simp
  constructor
  · rintro ⟨first, second, third⟩
    exact ⟨isProxyConnection ▸ first, isProxyAuthorization ▸ second, same.mp third⟩
  · rintro ⟨first, second, third⟩
    exact ⟨isProxyConnection.trans first, isProxyAuthorization.trans second, same.mpr third⟩

theorem valuesOf_traced {time rand : UInt32} (other : (ascii "X-Trace-Id").map tolower ≠ name) :
    valuesOf name (shown (tracedFields time rand fields)) = valuesOf name (shown fields) := by
  rw [tracedFields]
  split
  · rfl
  · have added : valuesOf name (shown [(ascii "X-Trace-Id", traceIdStr time rand)]) = [] := by
      rw [shown_line (by decide), valuesOf_cons, if_neg other, valuesOf_nil]
    rw [assign, shown_append, valuesOf_append, valuesOf_without (by decide) other]
    split <;> simp [added]

end Received

def CredentialsLine (line : Bytes) : Prop :=
  58 ∈ line ∧ (nameOf line).map tolower = proxyAuthorization

instance (line : Bytes) : Decidable (CredentialsLine line) :=
  inferInstanceAs (Decidable (_ ∧ _))

def SameButCredentials (buf buf' : Bytes) : Prop :=
  ∃ first lines lines' body, IsRequest buf first lines body ∧ IsRequest buf' first lines' body ∧
    lines.Forall₂ (fun line line' => line = line' ∨ CredentialsLine line ∧ CredentialsLine line')
      lines'

def SameUpstream (result result' : Checked Forwarded) : Prop :=
  ∀ r r', result = .ok r → result' = .ok r' → r.toUpstream = r'.toUpstream

theorem lines_eq_of_alike {lines lines' : List Bytes}
    (without : ∀ line ∈ lines, ¬ CredentialsLine line)
    (alike : lines.Forall₂
      (fun line line' => line = line' ∨ CredentialsLine line ∧ CredentialsLine line') lines') :
    lines = lines' := by
  induction alike with
  | nil => rfl
  | cons here _ ih =>
      obtain ⟨first, rest⟩ := List.forall_mem_cons.mp without
      rw [here.resolve_right fun both => first both.1, ih rest]

section Accepted

variable {maxBytes : Nat} {f : ContentFilter} {x : Exchange maxBytes} {sent : SendResult}
  {errno : Int} {port : Port} {pr pr' : ParsedRequest} {buf line text : Bytes} {time rand : UInt32}

theorem HopsHidden.no_credentials {p : Parts}
    (hidden : HopsHidden (tracedFields time rand pr.fields)) (parsed : p.Parsed buf pr) :
    ∀ line ∈ p.lines, ¬ CredentialsLine line := by
  rintro line member ⟨colon, isCredentials⟩
  have received := @valuesOf_line p.body _ _ parsed.of.request.headers member colon
  have gone := hidden.proxyAuthorization
  rw [valuesOf_endToEnd (by decide) (by decide), valuesOf_traced (by decide), parsed.fields] at gone
  rw [isCredentials] at received
  exact received gone

theorem hopByHop_iff (accepted : parsedRequestParse errno (newRequest port) buf = .ok (0, pr))
    (isGet : pr.textAt pr.method = .ok (ascii "GET"))
    (traced : addTraceId time rand pr = .ok pr') (isLine : upstreamLine pr' = .ok line)
    (isText : upstreamText pr' = .ok text) :
    Sends (fun _ request => Sanitised (receivedFields request)) (forwardRequest f x sent pr') ∧
      (∀ buf₁ pr₁ pr₁', SameButCredentials buf buf₁ →
        parsedRequestParse errno (newRequest port) buf₁ = .ok (0, pr₁) →
        addTraceId time rand pr₁ = .ok pr₁' →
        SameUpstream (forwardRequest f x sent pr') (forwardRequest f x sent pr₁')) ↔
      line.length < maxBytes ∧ text.length ≠ maxBytes ∧ (∃ n, endServerPort pr' = .ok n) ∧
        (x.connected = true → text.length < maxBytes ∧ HopsHidden pr'.fields) := by
  obtain ⟨name, path, version, ready, room, -⟩ := ready_of_accepted accepted isGet
  obtain ⟨ready', fields, -⟩ := ready_of_traced ready room traced
  have isLine := Except.ok.inj (isLine.symm.trans ready'.upstreamLine_eq)
  have isText := Except.ok.inj (isText.symm.trans ready'.upstreamText_eq)
  rw [← isLine] at isText
  obtain ⟨whole, cut⟩ := ready'.received isLine isText
  have sanitised : Sends (fun _ request => Sanitised (receivedFields request))
      (forwardRequest f x sent pr') ↔
      line.length < maxBytes ∧ text.length ≠ maxBytes ∧ (∃ n, endServerPort pr' = .ok n) ∧
        (x.connected = true → text.length < maxBytes ∧ HopsHidden pr'.fields) := by
    rw [ready'.sends_iff isLine isText, exists_and_right]
    refine and_congr_right fun _ => and_congr_right fun _ => and_congr_right fun _ =>
      forall_congr' fun _ => ?_
    by_cases fits : text.length < maxBytes
    · rw [if_pos fits, and_iff_right fits, whole, sanitised_iff]
    · rw [if_neg fits, cut]
      exact iff_of_false (fun clean => by simpa using clean.connection) fun both => fits both.1
  refine ⟨fun both => sanitised.mp both.1, fun holds => ⟨sanitised.mpr holds, ?_⟩⟩
  rintro buf₁ pr₁ pr₁' ⟨first, lines, lines', body, request, request', alike⟩ accepted' traced'
  by_cases connected : x.connected = true
  · obtain ⟨method, address, after, parsed⟩ := request.parts_of accepted
    have hidden := (holds.2.2.2 connected).2
    rw [fields] at hidden
    obtain rfl := lines_eq_of_alike (hidden.no_credentials parsed) alike
    obtain rfl : buf = buf₁ := request.text.trans request'.text.symm
    obtain ⟨-, rfl⟩ := Prod.mk.inj (Except.ok.inj (accepted.symm.trans accepted'))
    obtain rfl := Except.ok.inj (traced.symm.trans traced')
    intro r r' done done'
    rw [Except.ok.inj (done.symm.trans done')]
  · intro r r' done done'
    have unconnected : x.connected = false := by simpa using connected
    rw [forwardRequest_unconnected unconnected done, forwardRequest_unconnected unconnected done']

end Accepted

theorem root_hopsHidden : ∃ pr pr',
    parsedRequestParse 0 (newRequest .null) rootRequest = .ok (0, pr) ∧
      addTraceId 1 2 pr = .ok pr' ∧
      Sends (fun _ request => Sanitised (receivedFields request))
        (forwardRequest unfiltered (unanswered 100) (takes 100) pr') := by
  obtain ⟨pr, pr', of⟩ := exists_trace trace_root
  have hidden : HopsHidden pr'.fields := by
    rw [of.fields]
    exact ⟨by decide +kernel, by decide +kernel, by decide +kernel⟩
  exact ⟨pr, pr', of.accepted, of.traced,
    ((hopByHop_iff of.accepted of.isMethod of.traced of.isLine of.isText).mpr
      ⟨by decide +kernel, by decide +kernel, ⟨80, of.isPort⟩,
        fun _ => ⟨by decide +kernel, hidden⟩⟩).1⟩

def userRequest (credentials : String) : Bytes :=
  ascii "GET http://a/ HTTP/1.1\r\nProxy-Authorization: Basic " ++ ascii credentials ++
    ascii "\r\n\r\n"

def userText (credentials : String) : Bytes :=
  ascii "GET / HTTP/1.1\r\nProxy-Authorization: Basic " ++ ascii credentials ++
    ascii "\r\nX-Trace-Id: 0000000100000002\r\nConnection: close\r\nHost: a\r\n\r\n"

def userTrace (credentials : String) : Trace where
  __ := rootTrace 150 (userText credentials)
  text := userText credentials
  fields := [(ascii "Proxy-Authorization", ascii "Basic " ++ ascii credentials),
    (ascii "X-Trace-Id", ascii "0000000100000002")]

theorem credentials_sent : ∃ pr pr' pr₁ pr₁',
    parsedRequestParse 0 (newRequest .null) (userRequest "YTpi") = .ok (0, pr) ∧
      addTraceId 1 2 pr = .ok pr' ∧
      ¬ Sends (fun _ request => Sanitised (receivedFields request))
        (forwardRequest unfiltered (unanswered 150) (takes 150) pr') ∧
      SameButCredentials (userRequest "YTpi") (userRequest "Yzpk") ∧
      parsedRequestParse 0 (newRequest .null) (userRequest "Yzpk") = .ok (0, pr₁) ∧
      addTraceId 1 2 pr₁ = .ok pr₁' ∧
      ¬ SameUpstream (forwardRequest unfiltered (unanswered 150) (takes 150) pr')
        (forwardRequest unfiltered (unanswered 150) (takes 150) pr₁') := by
  have done : trace 150 (userRequest "YTpi") = .ok (0, userTrace "YTpi") := by decide +kernel
  have done' : trace 150 (userRequest "Yzpk") = .ok (0, userTrace "Yzpk") := by decide +kernel
  obtain ⟨pr, pr', of⟩ := exists_trace done
  obtain ⟨pr₁, pr₁', of'⟩ := exists_trace done'
  refine ⟨pr, pr', pr₁, pr₁', of.accepted, of.traced, ?_, ?_, of'.accepted, of'.traced, ?_⟩
  · rintro ⟨r, same, clean⟩
    obtain rfl := Except.ok.inj (of.forwarded.symm.trans same)
    exact absurd (clean (userText "YTpi") rfl).proxyAuthorization (by decide +kernel)
  · refine ⟨ascii "GET http://a/ HTTP/1.1", [ascii "Proxy-Authorization: Basic YTpi"],
      [ascii "Proxy-Authorization: Basic Yzpk"], [], ⟨by decide +kernel, by decide +kernel, ?_⟩,
      ⟨by decide +kernel, by decide +kernel, ?_⟩,
      .cons (.inr ⟨by decide +kernel, by decide +kernel⟩) .nil⟩
    all_goals
      rw [List.forall_mem_singleton]
      exact ⟨by decide +kernel, by decide +kernel, by decide +kernel⟩
  · intro same
    exact absurd (same _ _ of.forwarded of'.forwarded) (by decide +kernel)

end ProxyServer.ProxyParse
