import ProxyServer.Config.Mentions

namespace ProxyServer.Config
open Lib

namespace Setting

def name : Setting → Bytes
  | int .port => ascii "port"
  | int .maxClients => ascii "max_clients"
  | int .logMaxSizeMb => ascii "log_max_size_mb"
  | int .adminPort => ascii "admin_port"
  | int .rateLimitRps => ascii "rate_limit_rps"
  | int .rateLimitBurst => ascii "rate_limit_burst"
  | int .bandwidthLimitKbps => ascii "bandwidth_limit_kbps"
  | int .maxHttp1Connections => ascii "max_http1_connections"
  | int .maxHttp2Connections => ascii "max_http2_connections"
  | int .maxHttp3Connections => ascii "max_http3_connections"
  | size .maxBytes => ascii "max_bytes"
  | size .maxCacheSize => ascii "max_cache_size"
  | size .maxElementSize => ascii "max_element_size"
  | flag .enableIpv6 => ascii "enable_ipv6"
  | flag .enableCache => ascii "enable_cache"
  | flag .enableAuth => ascii "enable_auth"
  | flag .logRotation => ascii "log_rotation"
  | flag .enableAdmin => ascii "enable_admin"
  | flag .enableThrottling => ascii "enable_throttling"
  | flag .enableHttps => ascii "enable_https"
  | flag .enableHttp2 => ascii "enable_http2"
  | flag .enableHttp3 => ascii "enable_http3"
  | flag .tlsVerifyPeer => ascii "tls_verify_peer"
  | flag .enableFilter => ascii "enable_filter"
  | text .bindAddress => ascii "bind_address"
  | text .cacheDir => ascii "cache_dir"
  | text .authFile => ascii "auth_file"
  | text .blocklistFile => ascii "blocklist_file"
  | text .allowIpFile => ascii "allow_ip_file"
  | text .denyIpFile => ascii "deny_ip_file"
  | text .urlBlocklistFile => ascii "url_blocklist_file"
  | text .contentTypeBlocklistFile => ascii "content_type_blocklist_file"
  | text .blockPageFile => ascii "block_page_file"
  | text .logFile => ascii "log_file"
  | text .logLevel => ascii "log_level"
  | text .logFormat => ascii "log_format"
  | text .caBundleFile => ascii "ca_bundle_file"
  | text .crlFile => ascii "crl_file"

/-- There is no key for the list of content types. -/
def fileKey (setting : Setting) : Option Bytes :=
  if setting = text .contentTypeBlocklistFile then none else some setting.name

def upper (c : UInt8) : UInt8 := if 97 ≤ c && c ≤ 122 then c - 32 else c

def envName (setting : Setting) : Option Bytes :=
  if setting ∈ [int .adminPort, flag .enableAdmin, text .allowIpFile, text .denyIpFile,
      text .urlBlocklistFile, text .contentTypeBlocklistFile, text .blockPageFile,
      text .logFormat] then none
  else some (ascii "PROXY_" ++ setting.name.map upper)

def dashed (c : UInt8) : UInt8 := if c = 95 then 45 else c

def valueOption (setting : Setting) : Option Bytes :=
  match setting with
  | size .maxCacheSize => some (ascii "cache-size")
  | size .maxElementSize => some (ascii "element-size")
  | int .bandwidthLimitKbps => some (ascii "bandwidth-limit")
  | int .logMaxSizeMb | int .adminPort => none
  | flag .tlsVerifyPeer => some (ascii "tls-verify-peer")
  | flag _ => none
  | text .urlBlocklistFile | text .contentTypeBlocklistFile | text .blockPageFile
  | text .logFormat => none
  | setting => some (setting.name.map dashed)

def switch (setting : Setting) : Option Bytes :=
  match setting with
  | flag .logRotation | flag .enableAdmin | flag .tlsVerifyPeer => none
  | flag field => some ((flag field).name.map dashed)
  | _ => none

def lineValue (setting : Setting) (line : Bytes) : Option Bytes :=
  (parseConfigLine ((cstr line).dropWhile isspace) 256 512).bind fun pair =>
    if setting.fileKey = some pair.1 then some pair.2 else none

def envValue (setting : Setting) (getenv : Bytes → Option Bytes) : Option Bytes :=
  setting.envName.bind getenv

def argValue (setting : Setting) (argv : Bytes) : Option Bytes :=
  if 61 ∈ argv.drop 2 then
    if setting.valueOption = some ((argv.drop 2).takeWhile (· != 61)) then
      some ((argv.drop 2).dropWhile (· != 61)).tail
    else none
  else if setting.switch = some (argv.drop 2) then some (ascii "1")
  else none

end Setting

def fileLines : Bytes → List Bytes
  | [] => []
  | c :: rest =>
      if c = 10 then [c] :: fileLines rest
      else
        match fileLines rest with
        | [] => [[c]]
        | line :: lines => (c :: line) :: lines

def Setting.lastValue (setting : Setting) (file : Except Int Bytes)
    (getenv : Bytes → Option Bytes) (args : List Bytes) : Option Bytes :=
  (args.reverse.findSome? setting.argValue).or ((setting.envValue getenv).or
    ((file.toOption.map fileLines).bind fun lines => lines.reverse.findSome? setting.lineValue))

theorem fileKeys_named : ∀ entry ∈ fileKeys, entry.1 = entry.2.name := by
  apply List.map_inj_left.mp
  simp only [fileKeys, List.map_cons, List.map_nil, Setting.name]

theorem fileKeys_distinct : (fileKeys.map Prod.fst).Nodup := by
  rw [fileKeys]
  repeat rw [ascii_ofList]
  decide

theorem mem_fileKeys (setting : Setting) :
    setting ∈ fileKeys.map Prod.snd ↔ setting ≠ .text .contentTypeBlocklistFile := by
  rcases setting with field | field | field | field <;> cases field <;> decide

theorem fileKeys_lookup {key : Bytes} {setting : Setting} :
    fileKeys.lookup key = some setting ↔ setting.fileKey = some key := by
  rw [lookup_named fileKeys_named fileKeys_distinct, mem_fileKeys, Setting.fileKey]
  split <;> simp_all

theorem envNames_named : ∀ entry ∈ envNames,
    entry.1 = ascii "PROXY_" ++ entry.2.name.map Setting.upper := by
  apply List.map_inj_left.mp
  simp only [envNames, List.map_cons, List.map_nil, Setting.name]
  repeat rw [ascii_ofList]
  decide

theorem mem_envNames (setting : Setting) :
    setting ∈ envNames.map Prod.snd ↔ setting.envName.isSome := by
  rcases setting with field | field | field | field <;> cases field <;> decide

theorem envName_of_isSome {setting : Setting} (named : setting.envName.isSome) :
    setting.envName = some (ascii "PROXY_" ++ setting.name.map Setting.upper) := by
  rw [Setting.envName] at named ⊢
  split
  · rename_i unnamed
    simp [unnamed] at named
  · rfl

theorem envNames_lastMention (getenv : Bytes → Option Bytes) (setting : Setting) :
    lastMention setting (envMentions getenv) = setting.envValue getenv := by
  have distinct : (envNames.map Prod.snd).Nodup := by decide
  have last := lastMention_named (f := fun setting : Setting =>
    ascii "PROXY_" ++ setting.name.map Setting.upper) envNames_named distinct getenv setting
  rw [envMentions, last, Setting.envValue]
  split
  · rename_i listed
    rw [envName_of_isSome ((mem_envNames setting).mp listed), Option.bind_some]
  · rename_i absent
    rw [Option.not_isSome_iff_eq_none.mp fun named => absent ((mem_envNames setting).mpr named),
      Option.bind_none]

theorem envNames_distinct : (envNames.map Prod.fst).Nodup := by
  rw [envNames]
  repeat rw [ascii_ofList]
  decide

theorem envName_injective {setting other : Setting} {name : Bytes}
    (isName : setting.envName = some name) (isName' : other.envName = some name) :
    setting = other := by
  have found {setting : Setting} (isName : setting.envName = some name) :
      envNames.lookup name = some setting := by
    have named : setting.envName.isSome := by simp [isName]
    rw [envName_of_isSome named, Option.some.injEq] at isName
    have listed := (mem_envNames setting).mpr named
    exact (lookup_named (f := fun setting : Setting =>
      ascii "PROXY_" ++ setting.name.map Setting.upper) envNames_named envNames_distinct).mpr
        ⟨listed, isName⟩
  exact Option.some.inj ((found isName).symm.trans (found isName'))

theorem argKeys_lookup {key : Bytes} {setting : Setting} :
    argKeys.lookup key = some setting ↔ setting.valueOption = some key := by
  have named : ∀ entry ∈ argKeys, entry.1 = entry.2.valueOption.getD [] := by
    apply List.map_inj_left.mp
    simp only [argKeys, List.map_cons, List.map_nil, Setting.valueOption, Setting.name,
      Option.getD_some]
    repeat rw [ascii_ofList]
    decide
  have distinct : (argKeys.map Prod.fst).Nodup := by
    rw [argKeys]
    repeat rw [ascii_ofList]
    decide
  have listed : setting ∈ argKeys.map Prod.snd ↔ setting.valueOption.isSome := by
    rcases setting with field | field | field | field <;> cases field <;> decide
  rw [lookup_named (f := fun setting : Setting => setting.valueOption.getD []) named distinct,
    listed]
  cases setting.valueOption <;> simp

theorem argFlags_lookup {arg : Bytes} {field : FlagField} :
    argFlags.lookup arg = some field ↔ (Setting.flag field).switch = some arg := by
  have named : ∀ entry ∈ argFlags, entry.1 = (Setting.flag entry.2).switch.getD [] := by
    apply List.map_inj_left.mp
    simp only [argFlags, List.map_cons, List.map_nil, Setting.switch, Setting.name,
      Option.getD_some]
    repeat rw [ascii_ofList]
    decide
  have distinct : (argFlags.map Prod.fst).Nodup := by
    rw [argFlags]
    repeat rw [ascii_ofList]
    decide
  have listed : field ∈ argFlags.map Prod.snd ↔ (Setting.flag field).switch.isSome := by
    cases field <;> decide
  rw [lookup_named (f := fun field => (Setting.flag field).switch.getD []) named distinct,
    listed]
  cases (Setting.flag field).switch <;> simp

theorem switch_eq_iff {arg : Bytes} {setting : Setting} :
    setting.switch = some arg ↔ ∃ field, argFlags.lookup arg = some field ∧ setting = .flag field := by
  constructor
  · intro isSwitch
    rcases setting with field | field | field | field
    · simp [Setting.switch] at isSwitch
    · simp [Setting.switch] at isSwitch
    · exact ⟨field, argFlags_lookup.mpr isSwitch, rfl⟩
    · simp [Setting.switch] at isSwitch
  · rintro ⟨field, found, rfl⟩
    exact argFlags_lookup.mp found

def only (setting : Setting) (mention : Setting × Bytes) : Option Bytes :=
  if mention.1 = setting then some mention.2 else none

theorem of_only {setting : Setting} {mention : Option (Setting × Bytes)}
    (mentioned : mention.bind (only setting) ≠ none) : ∃ value, mention = some (setting, value) := by
  cases mention with
  | none => simp at mentioned
  | some m =>
      rw [Option.bind_some, only] at mentioned
      split at mentioned
      · rename_i same
        exact ⟨m.2, by rw [← same]⟩
      · simp at mentioned

theorem head_trimWhitespace {c : UInt8} (visible : isspace c = false) (str : Bytes) :
    (trimWhitespace (c :: str)).head? = some c := by
  have blank : ¬ isspace c = true := by simp [visible]
  rw [trimWhitespace, List.takeWhile_cons_of_neg blank, List.dropWhile_cons_of_neg blank,
    List.nil_append]
  have kept : (c :: str).rdropWhile isspace ≠ [] := fun empty =>
    blank (List.rdropWhile_eq_nil_iff.mp empty c List.mem_cons_self)
  obtain ⟨d, rest, shape⟩ := List.exists_cons_of_ne_nil kept
  obtain ⟨more, whole⟩ := List.rdropWhile_prefix isspace (l := c :: str)
  rw [shape] at whole ⊢
  rw [List.cons_append] at whole
  rw [List.head?_cons, (List.cons.inj whole).1]

theorem key_of_accepted {line : Bytes} {keySize valueSize : Nat} {pair : Bytes × Bytes}
    (accepted : parseConfigLine line keySize valueSize = some pair) :
    pair.1 = trimWhitespace (line.takeWhile (· != 61)) := by
  simp only [parseConfigLine] at accepted
  split at accepted
  · split at accepted
    · simp at accepted
    · split at accepted
      · simp at accepted
      · rw [← Option.some.inj accepted]
  · simp at accepted

theorem head_fileKey {setting : Setting} {key : Bytes} (isKey : setting.fileKey = some key) :
    key.head? ≠ some 35 ∧ key.head? ≠ some 59 := by
  rw [Setting.fileKey] at isKey
  split at isKey
  · simp at isKey
  · obtain rfl := Option.some.inj isKey
    rcases setting with field | field | field | field <;> cases field <;> decide

theorem lineValue_comment {setting : Setting} {line : Bytes}
    (comment : ((cstr line).dropWhile isspace).head? = some 35 ∨
      ((cstr line).dropWhile isspace).head? = some 59) : setting.lineValue line = none := by
  rw [Setting.lineValue]
  cases accepted : parseConfigLine ((cstr line).dropWhile isspace) 256 512 with
  | none => rfl
  | some pair =>
      rw [Option.bind_some, if_neg]
      intro isKey
      have isFirst := key_of_accepted accepted
      cases trimmed : (cstr line).dropWhile isspace with
      | nil => simp [trimmed] at comment
      | cons c str =>
          simp only [trimmed, List.head?_cons, Option.some.injEq] at comment isFirst
          have sign : isspace c = false ∧ (c != 61) = true := by
            rcases comment with rfl | rfl <;> decide
          rw [List.takeWhile_cons_of_pos (p := (· != 61)) sign.2] at isFirst
          have first := head_trimWhitespace sign.1 (str.takeWhile (· != 61))
          rw [← isFirst] at first
          rcases comment with rfl | rfl
          · exact (head_fileKey isKey).1 first
          · exact (head_fileKey isKey).2 first

theorem lineValue_eq (setting : Setting) (line : Bytes) :
    setting.lineValue line = (lineMention line).bind (only setting) := by
  simp only [lineMention]
  split
  · rename_i skipped
    rcases skipped with empty | comment
    · rw [Setting.lineValue, empty]
      rfl
    · exact lineValue_comment comment
  · rw [Setting.lineValue]
    cases parseConfigLine ((cstr line).dropWhile isspace) 256 512 with
    | none => rfl
    | some pair =>
        simp only [Option.bind_some, Option.bind_eq_bind, ← fileKeys_lookup]
        cases fileKeys.lookup pair.1 <;> simp [only, Option.pure_def]

theorem argValue_eq (setting : Setting) (argv : Bytes) :
    setting.argValue argv = (argMention argv).bind (only setting) := by
  rw [Setting.argValue, argMention]
  split
  · simp only [← argKeys_lookup]
    cases argKeys.lookup ((argv.drop 2).takeWhile (· != 61)) <;> simp [only]
  · simp only [switch_eq_iff]
    cases argFlags.lookup (argv.drop 2) <;> simp [only, eq_comm]

theorem fileLines_nonempty (content : Bytes) : ∀ line ∈ fileLines content, line ≠ [] := by
  induction content with
  | nil => simp [fileLines]
  | cons c rest ih =>
      rw [fileLines]
      split
      · simpa using ih
      · cases ended : fileLines rest with
        | nil => simp
        | cons line lines =>
            rw [ended] at ih
            simpa using fun other member => ih other (List.mem_cons_of_mem _ member)

theorem fgets_begun {begun content : Bytes}
    (short : begun.length < CONFIG_MAX_LINE - 1 ∧
      ∀ line ∈ (fileLines content).head?, begun.length + line.length < CONFIG_MAX_LINE)
    (shorts : ∀ line ∈ (fileLines content).tail, line.length < CONFIG_MAX_LINE) :
    fgets begun content =
      match fileLines content with
      | [] => if begun = [] then [] else [begun]
      | line :: lines => (begun ++ line) :: lines := by
  induction content generalizing begun with
  | nil => rfl
  | cons c rest ih =>
      have fresh : (∀ line ∈ fileLines rest, line.length < CONFIG_MAX_LINE) →
          fgets [] rest = fileLines rest := by
        intro shorts
        rw [ih ⟨by decide, fun line first => by
          simpa using shorts line (List.mem_of_mem_head? first)⟩ fun line later =>
            shorts line (List.mem_of_mem_tail later)]
        cases fileLines rest <;> rfl
      by_cases newline : c = 10
      · simp only [fileLines, if_pos newline, List.tail_cons] at shorts ⊢
        rw [fgets, if_pos (.inl newline), fresh shorts]
      · rw [fileLines, if_neg newline] at short shorts ⊢
        rw [fgets]
        have grown : (begun ++ [c]).length = begun.length + 1 := by simp
        cases ended : fileLines rest with
        | nil =>
            simp only [ended] at ih shorts ⊢
            split
            · rw [fresh (by simp [ended]), ended]
            · rename_i goesOn
              obtain ⟨-, room⟩ := not_or.mp goesOn
              rw [ih ⟨by omega, by simp⟩ (by simp)]
              simp
        | cons line lines =>
            simp only [ended, List.head?_cons, Option.mem_def, Option.some.injEq, forall_eq',
              List.tail_cons, List.length_cons] at ih short shorts ⊢
            split
            · rename_i full
              have room := full.resolve_left newline
              have nonempty := List.length_pos_of_ne_nil
                (fileLines_nonempty rest line (by simp [ended]))
              omega
            · rename_i goesOn
              obtain ⟨-, room⟩ := not_or.mp goesOn
              rw [ih ⟨by omega, by omega⟩ shorts]
              simp

theorem fgets_eq {content : Bytes}
    (short : ∀ line ∈ fileLines content, line.length < CONFIG_MAX_LINE) :
    fgets [] content = fileLines content := by
  rw [fgets_begun ⟨by decide, fun line first => by
    simpa using short line (List.mem_of_mem_head? first)⟩ fun line later =>
      short line (List.mem_of_mem_tail later)]
  cases fileLines content <;> rfl

theorem lastMention_fileMentions {file : Except Int Bytes}
    (short : ∀ content, file = .ok content →
      ∀ line ∈ fileLines content, line.length < CONFIG_MAX_LINE) (setting : Setting) :
    lastMention setting (fileMentions file) =
      (file.toOption.map fileLines).bind fun lines => lines.reverse.findSome? setting.lineValue := by
  cases file with
  | error errno => rfl
  | ok content =>
      rw [fileMentions, fgets_eq (short content rfl), lastMention_filterMap]
      exact congrArg (List.findSome? · _) (funext fun line => (lineValue_eq setting line).symm)

theorem lastMention_args (args : List Bytes) (setting : Setting) :
    lastMention setting (args.filterMap argMention) =
      args.reverse.findSome? setting.argValue := by
  rw [lastMention_filterMap]
  exact congrArg (List.findSome? · _) (funext fun arg => (argValue_eq setting arg).symm)

theorem config_precedence {file : Except Int Bytes} {getenv : Bytes → Option Bytes}
    {args : List Bytes} {cfg : ProxyConfig}
    (short : ∀ content, file = .ok content →
      ∀ line ∈ fileLines content, line.length < CONFIG_MAX_LINE)
    (accepted : configApplyArgs (configApplyEnv getenv
      (configLoadFile (configInitDefaults .zeroed) file).2) args = (0, cfg)) :
    (∀ setting : Setting, setting.get cfg =
      (setting.lastValue file getenv args).elim (setting.get (configInitDefaults .zeroed))
        setting.read) ∧
    ∀ setting other : Setting, setting ≠ other →
      (∀ cfg line, setting.lineValue line ≠ none → other.get (loadLine cfg line) = other.get cfg) ∧
      (∀ cfg getenv name value, setting.envName = some name →
        other.get (configApplyEnv (Function.update getenv name (some value)) cfg) =
          other.get (configApplyEnv getenv cfg)) ∧
      ∀ cfg cfg' arg, setting.argValue arg ≠ none → applyArg arg cfg = some cfg' →
        other.get cfg' = other.get cfg := by
  refine ⟨fun setting => ?_, fun setting other different => ⟨?_, ?_, ?_⟩⟩
  · have whole : cfg = fields.run (fileMentions file ++ envMentions getenv ++
        args.filterMap argMention) (configInitDefaults .zeroed) := by
      rw [configApplyArgs_eq accepted, configApplyEnv_eq, configLoadFile_eq, fields.run_append,
        fields.run_append]
    rw [whole]
    refine (fields.get_run setting _ _).trans ?_
    rw [lastMention_append, lastMention_append, lastMention_fileMentions short,
      envNames_lastMention, lastMention_args]
    rfl
  · intro cfg line mentioned
    rw [lineValue_eq] at mentioned
    obtain ⟨value, isMention⟩ := of_only mentioned
    rw [loadLine_eq, isMention]
    exact fields.get_put_of_ne other setting value cfg (Ne.symm different)
  · intro cfg getenv name value isName
    have unnamed : other.envName ≠ some name := fun isName' =>
      different (envName_injective isName isName')
    have same : other.envValue (Function.update getenv name (some value)) =
        other.envValue getenv := by
      cases isName' : other.envName with
      | none => simp [Setting.envValue, isName']
      | some name' =>
          have distinct : name' ≠ name := fun same => unnamed (isName'.trans (congrArg _ same))
          simp [Setting.envValue, isName', Function.update_of_ne distinct]
    have here := fields.get_run other (envMentions getenv) cfg
    have there := fields.get_run other
      (envMentions (Function.update getenv name (some value))) cfg
    rw [envNames_lastMention] at here there
    rw [same] at there
    rw [configApplyEnv_eq, configApplyEnv_eq]
    exact there.trans here.symm
  · intro cfg cfg' arg mentioned applied
    rw [argValue_eq] at mentioned
    obtain ⟨value, isMention⟩ := of_only mentioned
    rw [applyArg_eq applied, isMention]
    exact fields.get_put_of_ne other setting value cfg (Ne.symm different)

theorem twice_precedence :
    let cfg := (configApplyArgs (configApplyEnv (fun _ => none)
      (configLoadFile (configInitDefaults .zeroed)
        (.ok (ascii "port = 80\nmax_clients=5\nport=81"))).2) [ascii "--max-clients=20"]).2
    cfg.int .port = 81 ∧ cfg.int .maxClients = 20 := by
  intro cfg
  have short : ∀ line ∈ fileLines (ascii "port = 80\nmax_clients=5\nport=81"),
      line.length < CONFIG_MAX_LINE := by decide
  have precedence := @config_precedence
    (.ok (ascii "port = 80\nmax_clients=5\nport=81")) (fun _ => none)
    [ascii "--max-clients=20"] cfg
    (fun content isContent => by rw [← Except.ok.inj isContent]; exact short)
    (Prod.ext (by decide) rfl)
  exact ⟨(precedence.1 (.int .port)).trans (by decide),
    (precedence.1 (.int .maxClients)).trans (by decide)⟩

end ProxyServer.Config
