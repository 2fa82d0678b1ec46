import Mathlib.Data.List.DropRight
import Mathlib.Logic.Function.Basic
import ProxyServer.CString

namespace ProxyServer.Config

/-! ## The fields -/

inductive IntField where
  | port
  | maxClients
  | logMaxSizeMb
  | adminPort
  | rateLimitRps
  | rateLimitBurst
  | bandwidthLimitKbps
  | maxHttp1Connections
  | maxHttp2Connections
  | maxHttp3Connections
  deriving DecidableEq

inductive SizeField where
  | maxBytes
  | maxCacheSize
  | maxElementSize
  deriving DecidableEq

inductive FlagField where
  | enableIpv6
  | enableCache
  | enableAuth
  | logRotation
  | enableAdmin
  | enableThrottling
  | enableHttps
  | enableHttp2
  | enableHttp3
  | tlsVerifyPeer
  | enableFilter
  deriving DecidableEq

inductive TextField where
  | bindAddress
  | cacheDir
  | authFile
  | blocklistFile
  | allowIpFile
  | denyIpFile
  | urlBlocklistFile
  | contentTypeBlocklistFile
  | blockPageFile
  | logFile
  | logLevel
  | logFormat
  | caBundleFile
  | crlFile
  deriving DecidableEq

def TextField.size : TextField → Nat
  | .bindAddress => 256
  | .logLevel => 32
  | .logFormat => 32
  | _ => 512

structure ProxyConfig where
  int : IntField → Int
  size : SizeField → Nat
  flag : FlagField → Bool
  text : TextField → Bytes

def ProxyConfig.zeroed : ProxyConfig where
  int _ := 0
  size _ := 0
  flag _ := false
  text _ := []

/-! ## Assigning a field -/

def isTrue (value : Bytes) : Bool := value.map tolower == ascii "true" || value == ascii "1"

/-- `atoll` for the size that is one, else `atoi`, and what a `size_t` makes of it. -/
def SizeField.read (field : SizeField) (value : Bytes) : Nat :=
  match field with
  | .maxCacheSize => toSize (strtol value)
  | _ => toSize (atoi value)

def TextField.copy (field : TextField) (value : Bytes) : Bytes := value.take (field.size - 1)

inductive Setting where
  | int (field : IntField)
  | size (field : SizeField)
  | flag (field : FlagField)
  | text (field : TextField)
  deriving DecidableEq

def Setting.apply (setting : Setting) (value : Bytes) (cfg : ProxyConfig) : ProxyConfig :=
  match setting with
  | .int field => { cfg with int := Function.update cfg.int field (atoi value) }
  | .size field => { cfg with size := Function.update cfg.size field (field.read value) }
  | .flag field => { cfg with flag := Function.update cfg.flag field (isTrue value) }
  | .text field => { cfg with text := Function.update cfg.text field (field.copy value) }

/-! ## The defaults -/

/-- Two fields are left as they are. -/
def configInitDefaults (cfg : ProxyConfig) : ProxyConfig where
  int
    | .port => 8080
    | .maxClients => 10
    | .logMaxSizeMb => 10
    | .adminPort => 8081
    | .rateLimitRps => 100
    | .rateLimitBurst => 20
    | .bandwidthLimitKbps => 1000
    | .maxHttp1Connections => 50
    | .maxHttp2Connections => 50
    | .maxHttp3Connections => 0
  size
    | .maxBytes => 4096
    | .maxCacheSize => 200 * 1024 * 1024
    | .maxElementSize => 10 * 1024
  flag
    | .enableIpv6 => false
    | .enableCache => true
    | .enableAuth => false
    | .logRotation => false
    | .enableAdmin => true
    | .enableThrottling => false
    | .enableHttps => true
    | .enableHttp2 => false
    | .enableHttp3 => cfg.flag .enableHttp3
    | .tlsVerifyPeer => true
    | .enableFilter => false
  text
    | .bindAddress => ascii "0.0.0.0"
    | .logFile => ascii "proxy.log"
    | .logLevel => ascii "INFO"
    | .logFormat => ascii "SQUID"
    | .contentTypeBlocklistFile => cfg.text .contentTypeBlocklistFile
    | _ => []

/-! ## The file -/

def CONFIG_MAX_LINE : Nat := 1024

/-- What successive calls of `fgets` put into the line buffer, `line` being what is in it: up to a
newline, or as much as there is room for. -/
def fgets (line : Bytes) : Bytes → List Bytes
  | [] => if line = [] then [] else [line]
  | c :: rest =>
      let line := line ++ [c]
      if c = 10 ∨ line.length = CONFIG_MAX_LINE - 1 then line :: fgets [] rest else fgets line rest

def trimWhitespace (str : Bytes) : Bytes :=
  str.takeWhile isspace ++ (str.dropWhile isspace).rdropWhile isspace

def parseConfigLine (line : Bytes) (keySize valueSize : Nat) : Option (Bytes × Bytes) :=
  if 61 ∈ line then
    let key := line.takeWhile (· != 61)
    let value := ((line.dropWhile (· != 61)).tail).dropWhile isspace
    if key.length ≥ keySize then none
    else if value.length ≥ valueSize then none
    else some (trimWhitespace key, trimWhitespace value)
  else none

def fileKeys : List (Bytes × Setting) :=
  [(ascii "port", .int .port),
    (ascii "bind_address", .text .bindAddress),
    (ascii "enable_ipv6", .flag .enableIpv6),
    (ascii "max_clients", .int .maxClients),
    (ascii "max_bytes", .size .maxBytes),
    (ascii "max_cache_size", .size .maxCacheSize),
    (ascii "max_element_size", .size .maxElementSize),
    (ascii "enable_cache", .flag .enableCache),
    (ascii "cache_dir", .text .cacheDir),
    (ascii "enable_auth", .flag .enableAuth),
    (ascii "auth_file", .text .authFile),
    (ascii "blocklist_file", .text .blocklistFile),
    (ascii "allow_ip_file", .text .allowIpFile),
    (ascii "deny_ip_file", .text .denyIpFile),
    (ascii "url_blocklist_file", .text .urlBlocklistFile),
    (ascii "block_page_file", .text .blockPageFile),
    (ascii "log_file", .text .logFile),
    (ascii "log_level", .text .logLevel),
    (ascii "log_format", .text .logFormat),
    (ascii "enable_admin", .flag .enableAdmin),
    (ascii "admin_port", .int .adminPort),
    (ascii "log_rotation", .flag .logRotation),
    (ascii "log_max_size_mb", .int .logMaxSizeMb),
    (ascii "max_http1_connections", .int .maxHttp1Connections),
    (ascii "max_http2_connections", .int .maxHttp2Connections),
    (ascii "max_http3_connections", .int .maxHttp3Connections),
    (ascii "enable_throttling", .flag .enableThrottling),
    (ascii "rate_limit_rps", .int .rateLimitRps),
    (ascii "rate_limit_burst", .int .rateLimitBurst),
    (ascii "bandwidth_limit_kbps", .int .bandwidthLimitKbps),
    (ascii "enable_https", .flag .enableHttps),
    (ascii "enable_http2", .flag .enableHttp2),
    (ascii "enable_http3", .flag .enableHttp3),
    (ascii "tls_verify_peer", .flag .tlsVerifyPeer),
    (ascii "ca_bundle_file", .text .caBundleFile),
    (ascii "crl_file", .text .crlFile),
    (ascii "enable_filter", .flag .enableFilter)]

def loadLine (cfg : ProxyConfig) (buffer : Bytes) : ProxyConfig :=
  let trimmed := (cstr buffer).dropWhile isspace
  if trimmed = [] ∨ trimmed.head? = some 35 ∨ trimmed.head? = some 59 then cfg
  else
    match parseConfigLine trimmed 256 512 with
    | none => cfg
    | some (key, value) =>
        match fileKeys.lookup key with
        | none => cfg
        | some setting => setting.apply value cfg

def ENOENT : Int := 2

def configLoadFile (cfg : ProxyConfig) (file : Except Int Bytes) : Int × ProxyConfig :=
  match file with
  | .error errno => (if errno = ENOENT then 0 else -1, cfg)
  | .ok content => (0, (fgets [] content).foldl loadLine cfg)

/-! ## The environment -/

def envNames : List (Bytes × Setting) :=
  [(ascii "PROXY_PORT", .int .port),
    (ascii "PROXY_BIND_ADDRESS", .text .bindAddress),
    (ascii "PROXY_ENABLE_IPV6", .flag .enableIpv6),
    (ascii "PROXY_MAX_CLIENTS", .int .maxClients),
    (ascii "PROXY_MAX_BYTES", .size .maxBytes),
    (ascii "PROXY_MAX_HTTP1_CONNECTIONS", .int .maxHttp1Connections),
    (ascii "PROXY_MAX_HTTP2_CONNECTIONS", .int .maxHttp2Connections),
    (ascii "PROXY_MAX_HTTP3_CONNECTIONS", .int .maxHttp3Connections),
    (ascii "PROXY_MAX_CACHE_SIZE", .size .maxCacheSize),
    (ascii "PROXY_MAX_ELEMENT_SIZE", .size .maxElementSize),
    (ascii "PROXY_ENABLE_CACHE", .flag .enableCache),
    (ascii "PROXY_CACHE_DIR", .text .cacheDir),
    (ascii "PROXY_ENABLE_AUTH", .flag .enableAuth),
    (ascii "PROXY_AUTH_FILE", .text .authFile),
    (ascii "PROXY_BLOCKLIST_FILE", .text .blocklistFile),
    (ascii "PROXY_LOG_FILE", .text .logFile),
    (ascii "PROXY_LOG_LEVEL", .text .logLevel),
    (ascii "PROXY_LOG_ROTATION", .flag .logRotation),
    (ascii "PROXY_LOG_MAX_SIZE_MB", .int .logMaxSizeMb),
    (ascii "PROXY_ENABLE_THROTTLING", .flag .enableThrottling),
    (ascii "PROXY_RATE_LIMIT_RPS", .int .rateLimitRps),
    (ascii "PROXY_RATE_LIMIT_BURST", .int .rateLimitBurst),
    (ascii "PROXY_BANDWIDTH_LIMIT_KBPS", .int .bandwidthLimitKbps),
    (ascii "PROXY_ENABLE_HTTPS", .flag .enableHttps),
    (ascii "PROXY_ENABLE_HTTP2", .flag .enableHttp2),
    (ascii "PROXY_ENABLE_HTTP3", .flag .enableHttp3),
    (ascii "PROXY_TLS_VERIFY_PEER", .flag .tlsVerifyPeer),
    (ascii "PROXY_CA_BUNDLE_FILE", .text .caBundleFile),
    (ascii "PROXY_CRL_FILE", .text .crlFile),
    (ascii "PROXY_ENABLE_FILTER", .flag .enableFilter)]

def configApplyEnv (getenv : Bytes → Option Bytes) (cfg : ProxyConfig) : ProxyConfig :=
  envNames.foldl (fun cfg entry => (getenv entry.1).elim cfg fun value => entry.2.apply value cfg)
    cfg

/-! ## The arguments -/

def argFlags : List (Bytes × FlagField) :=
  [(ascii "enable-cache", .enableCache),
    (ascii "enable-auth", .enableAuth),
    (ascii "enable-ipv6", .enableIpv6),
    (ascii "enable-throttling", .enableThrottling),
    (ascii "enable-https", .enableHttps),
    (ascii "enable-http2", .enableHttp2),
    (ascii "enable-http3", .enableHttp3),
    (ascii "enable-filter", .enableFilter)]

def argKeys : List (Bytes × Setting) :=
  [(ascii "port", .int .port),
    (ascii "bind-address", .text .bindAddress),
    (ascii "max-clients", .int .maxClients),
    (ascii "max-bytes", .size .maxBytes),
    (ascii "max-http1-connections", .int .maxHttp1Connections),
    (ascii "max-http2-connections", .int .maxHttp2Connections),
    (ascii "max-http3-connections", .int .maxHttp3Connections),
    (ascii "cache-size", .size .maxCacheSize),
    (ascii "element-size", .size .maxElementSize),
    (ascii "cache-dir", .text .cacheDir),
    (ascii "auth-file", .text .authFile),
    (ascii "blocklist-file", .text .blocklistFile),
    (ascii "allow-ip-file", .text .allowIpFile),
    (ascii "deny-ip-file", .text .denyIpFile),
    (ascii "log-file", .text .logFile),
    (ascii "log-level", .text .logLevel),
    (ascii "rate-limit-rps", .int .rateLimitRps),
    (ascii "rate-limit-burst", .int .rateLimitBurst),
    (ascii "bandwidth-limit", .int .bandwidthLimitKbps),
    (ascii "tls-verify-peer", .flag .tlsVerifyPeer),
    (ascii "ca-bundle-file", .text .caBundleFile),
    (ascii "crl-file", .text .crlFile)]

/-- One argument; `help` is refused like an option that is not known. -/
def applyArg (argv : Bytes) (cfg : ProxyConfig) : Option ProxyConfig :=
  if (ascii "--").isPrefixOf argv then
    let arg := argv.drop 2
    if 61 ∈ arg then
      let key := arg.takeWhile (· != 61)
      let value := (arg.dropWhile (· != 61)).tail
      match argKeys.lookup key with
      | some setting => some (setting.apply value cfg)
      | none => if key = ascii "config" then some cfg else none
    else
      match argFlags.lookup arg with
      | some field => some { cfg with flag := Function.update cfg.flag field true }
      | none => none
  else none

def configApplyArgs (cfg : ProxyConfig) : List Bytes → Int × ProxyConfig
  | [] => (0, cfg)
  | arg :: args =>
      match applyArg arg cfg with
      | none => (-1, cfg)
      | some cfg => configApplyArgs cfg args

/-! ## Validation -/

def logLevelFromString (level : Bytes) : Int :=
  if level.map tolower = ascii "debug" then 0
  else if level.map tolower = ascii "info" then 1
  else if level.map tolower = ascii "warn" then 2
  else if level.map tolower = ascii "error" then 3
  else -1

structure Check where
  fails : ProxyConfig → Bool
  message : ProxyConfig → Bytes

def checks : List Check :=
  [⟨fun cfg => cfg.int .port < 1 || cfg.int .port > 65535, fun cfg =>
      ascii "Invalid port: " ++ ascii (toString (cfg.int .port)) ++ ascii " (must be 1-65535)\n"⟩,
    ⟨fun cfg => (cfg.text .bindAddress).length == 0, fun _ => ascii "Bind address cannot be empty\n"⟩,
    ⟨fun cfg => cfg.int .maxClients < 1, fun _ => ascii "Max clients must be >= 1\n"⟩,
    ⟨fun cfg => cfg.size .maxBytes < 1, fun _ => ascii "Max bytes must be >= 1\n"⟩,
    -- A `size_t` is never negative.
    ⟨fun cfg => cfg.size .maxCacheSize < 0, fun _ => ascii "Max cache size cannot be negative\n"⟩,
    ⟨fun cfg => cfg.size .maxElementSize < 1, fun _ => ascii "Max element size must be >= 1\n"⟩,
    ⟨fun cfg => (cfg.text .cacheDir).length > 0 && (cfg.text .cacheDir).length ≥ 512, fun _ =>
      ascii "Cache directory path too long\n"⟩,
    ⟨fun cfg => cfg.flag .enableAuth && (cfg.text .authFile).length == 0, fun _ =>
      ascii "Auth file must be specified when auth is enabled\n"⟩,
    ⟨fun cfg => cfg.flag .enableAuth && (cfg.text .authFile).length ≥ 512, fun _ =>
      ascii "Auth file path too long\n"⟩,
    ⟨fun cfg => (cfg.text .blocklistFile).length ≥ 512, fun _ =>
      ascii "Blocklist file path too long\n"⟩,
    ⟨fun cfg => (cfg.text .logFile).length == 0, fun _ => ascii "Log file cannot be empty\n"⟩,
    ⟨fun cfg => (cfg.text .logFile).length ≥ 512, fun _ => ascii "Log file path too long\n"⟩,
    ⟨fun cfg => logLevelFromString (cfg.text .logLevel) < 0, fun cfg =>
      ascii "Invalid log level: " ++ cfg.text .logLevel ++
        ascii " (must be DEBUG, INFO, WARN, or ERROR)\n"⟩,
    ⟨fun cfg => cfg.int .logMaxSizeMb < 1, fun _ => ascii "Log max size must be >= 1 MB\n"⟩,
    ⟨fun cfg => cfg.flag .enableThrottling && cfg.int .rateLimitRps < 1, fun _ =>
      ascii "Rate limit RPS must be >= 1\n"⟩,
    ⟨fun cfg => cfg.flag .enableThrottling && cfg.int .rateLimitBurst < 1, fun _ =>
      ascii "Rate limit burst must be >= 1\n"⟩,
    ⟨fun cfg => cfg.flag .enableThrottling && cfg.int .bandwidthLimitKbps < 1, fun _ =>
      ascii "Bandwidth limit must be >= 1 kbps\n"⟩]

def configValidate (cfg : ProxyConfig) : Option Bytes :=
  (checks.find? (·.fails cfg)).map (·.message cfg)

def SafeValid (cfg : ProxyConfig) : Prop :=
  1 ≤ cfg.size .maxElementSize ∧ cfg.text .logFile ≠ [] ∧
    0 ≤ logLevelFromString (cfg.text .logLevel) ∧
    (cfg.flag .enableThrottling = true →
      1 ≤ cfg.int .rateLimitRps ∧ 1 ≤ cfg.int .rateLimitBurst ∧ 1 ≤ cfg.int .bandwidthLimitKbps)

def FixedValid (cfg : ProxyConfig) : Prop :=
  1 ≤ cfg.int .port ∧ cfg.int .port ≤ 65535 ∧ cfg.text .bindAddress ≠ [] ∧
    1 ≤ cfg.int .maxClients ∧ 1 ≤ cfg.size .maxBytes ∧ (cfg.text .cacheDir).length < 512 ∧
    (cfg.flag .enableAuth = true →
      cfg.text .authFile ≠ [] ∧ (cfg.text .authFile).length < 512) ∧
    1 ≤ cfg.int .logMaxSizeMb

def ShortPaths (cfg : ProxyConfig) : Prop :=
  (cfg.text .blocklistFile).length < 512 ∧ (cfg.text .logFile).length < 512

theorem configValidate_eq_none_iff {cfg : ProxyConfig} :
    configValidate cfg = none ↔ FixedValid cfg ∧ SafeValid cfg ∧ ShortPaths cfg := by
  have dir : (0 < (cfg.text .cacheDir).length → (cfg.text .cacheDir).length < 512) ↔
      (cfg.text .cacheDir).length < 512 := by omega
  have passes : configValidate cfg = none ↔ ∀ check ∈ checks, check.fails cfg = false := by
    simp [configValidate]
  rw [passes, FixedValid, SafeValid, ShortPaths]
  simp only [checks, List.forall_mem_cons, List.not_mem_nil, false_implies, implies_true]
  simp [dir, imp_and, Nat.one_le_iff_ne_zero]
  tauto

end ProxyServer.Config
