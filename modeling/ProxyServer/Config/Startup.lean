import ProxyServer.Config.Mentions

namespace ProxyServer.Config
open Lib

/-- What `main` finds: its environment, what `fopen` gives for a path, and whether
`/etc/proxy/proxy.conf` exists. -/
structure Host where
  getenv : Bytes → Option Bytes
  fopen : Bytes → Except Int Bytes
  confExists : Bool

def configFile (host : Host) (args : List Bytes) : Bytes :=
  match args.find? (ascii "--config=").isPrefixOf with
  | some arg => arg.drop 9
  | none =>
      match host.getenv (ascii "PROXY_CONFIG_FILE") with
      | some path => path
      | none => if host.confExists then ascii "/etc/proxy/proxy.conf" else ascii "proxy.conf"

inductive CaSource where
  | file (path : Bytes)
  | default
  deriving DecidableEq

/-- `client_ctx_out`: whether it has `SSL_VERIFY_PEER`, and where its certificates are from. -/
structure ClientContext where
  verifyPeer : Bool
  ca : Option CaSource
  deriving DecidableEq

def caSource (cfg : ProxyConfig) : CaSource :=
  if cfg.text .caBundleFile ≠ [] then .file (cfg.text .caBundleFile) else .default

/-- The calls of OpenSSL are taken to succeed. -/
def initOpenSSL (cfg : ProxyConfig) : ClientContext :=
  if cfg.flag .tlsVerifyPeer then ⟨true, some (caSource cfg)⟩ else ⟨false, none⟩

/-- `sem_init` fails for what is more than `SEM_VALUE_MAX` as an `unsigned`. -/
def semInit (value : Int) : Option Nat := if 0 ≤ value then some value.toNat else none

def cacheInit (cfg : ProxyConfig) : Bytes :=
  if cfg.text .cacheDir ≠ [] then (cfg.text .cacheDir).take 255 else ascii "/tmp/proxy_cache"

structure Started where
  config : ProxyConfig
  semaphore : Option Nat
  cacheDir : Bytes
  clientContext : ClientContext

def positional (arg : Bytes) : Bool := arg.head?.any isdigit

def applyCommandLine (cfg : ProxyConfig) (args : List Bytes) : Int × ProxyConfig :=
  match args with
  | [arg] =>
      if positional arg then (0, { cfg with int := Function.update cfg.int .port (atoi arg) })
      else configApplyArgs cfg [arg]
  | args => configApplyArgs cfg args

/-- `main`, while the configuration file is not edited; `none` is an exit. -/
def startup (host : Host) (args : List Bytes) : Option Started :=
  let clientContext := initOpenSSL .zeroed
  let cfg := configInitDefaults .zeroed
  let cfg := (configLoadFile cfg (host.fopen (configFile host args))).2
  let cfg := configApplyEnv host.getenv cfg
  let semaphore := semInit (cfg.int .maxClients)
  let cacheDir := cacheInit cfg
  let (ret, cfg) := applyCommandLine cfg args
  if ret ≠ 0 then none
  else if (configValidate cfg).isSome then none
  else some ⟨cfg, semaphore, cacheDir, clientContext⟩

def earlyMentions (host : Host) (args : List Bytes) : List (Setting × Bytes) :=
  fileMentions (host.fopen (configFile host args)) ++ envMentions host.getenv

def argMentions (args : List Bytes) : List (Setting × Bytes) :=
  match args with
  | [arg] => if positional arg then [(.int .port, arg)] else [arg].filterMap argMention
  | args => args.filterMap argMention

def mentions (host : Host) (args : List Bytes) : List (Setting × Bytes) :=
  earlyMentions host args ++ argMentions args

def earlyConfig (host : Host) (args : List Bytes) : ProxyConfig :=
  fields.run (earlyMentions host args) (configInitDefaults .zeroed)

theorem applyCommandLine_eq {cfg cfg' : ProxyConfig} {args : List Bytes}
    (applied : applyCommandLine cfg args = (0, cfg')) :
    cfg' = fields.run (argMentions args) cfg := by
  unfold applyCommandLine at applied
  unfold argMentions
  split at applied
  · split at applied
    · rename_i digit
      rw [if_pos digit]
      exact (congrArg Prod.snd applied).symm
    · rename_i other
      rw [if_neg other]
      exact configApplyArgs_eq applied
  · exact configApplyArgs_eq applied

theorem startup_some {host : Host} {args : List Bytes} {s : Started}
    (started : startup host args = some s) :
    s.config = fields.run (mentions host args) (configInitDefaults .zeroed) ∧
      configValidate s.config = none ∧
      s.semaphore = semInit ((earlyConfig host args).int .maxClients) ∧
      s.cacheDir = cacheInit (earlyConfig host args) ∧ s.clientContext = ⟨false, none⟩ := by
  have early : configApplyEnv host.getenv (configLoadFile (configInitDefaults .zeroed)
      (host.fopen (configFile host args))).2 = earlyConfig host args := by
    rw [configApplyEnv_eq, configLoadFile_eq, earlyConfig, earlyMentions, fields.run_append]
  simp only [startup, early] at started
  cases applied : applyCommandLine (earlyConfig host args) args with
  | mk ret cfg =>
      simp only [applied] at started
      split at started
      · simp at started
      · rename_i accepted
        split at started
        · simp at started
        · rename_i valid
          obtain rfl := Option.some.inj started
          obtain rfl : ret = 0 := not_not.mp accepted
          refine ⟨?_, by simpa using valid, rfl, rfl, rfl⟩
          rw [mentions, fields.run_append]
          exact applyCommandLine_eq applied

structure FollowsConfig (s : Started) : Prop where
  semaphore : ∃ n, s.semaphore = some n ∧ (n : Int) = s.config.int .maxClients
  cacheDir : s.config.text .cacheDir ≠ [] → s.cacheDir = s.config.text .cacheDir
  verifyPeer : s.clientContext.verifyPeer = s.config.flag .tlsVerifyPeer
  ca : s.config.flag .tlsVerifyPeer = true → s.clientContext.ca = some (caSource s.config)

def clientsOf (mentions : List (Setting × Bytes)) : Int :=
  (lastMention (.int .maxClients) mentions).elim 10 atoi

def dirOf (mentions : List (Setting × Bytes)) : Bytes :=
  (lastMention (.text .cacheDir) mentions).elim [] TextField.cacheDir.copy

def verifyOf (mentions : List (Setting × Bytes)) : Bool :=
  (lastMention (.flag .tlsVerifyPeer) mentions).elim true isTrue

theorem run_defaults (mentions : List (Setting × Bytes)) :
    let cfg := fields.run mentions (configInitDefaults .zeroed)
    cfg.int .maxClients = clientsOf mentions ∧ cfg.text .cacheDir = dirOf mentions ∧
      cfg.flag .tlsVerifyPeer = verifyOf mentions :=
  ⟨fields.get_run (.int .maxClients) _ _, fields.get_run (.text .cacheDir) _ _,
    fields.get_run (.flag .tlsVerifyPeer) _ _⟩

theorem maxClients_pos {cfg : ProxyConfig} (valid : configValidate cfg = none) :
    1 ≤ cfg.int .maxClients := by
  obtain ⟨⟨-, -, -, clients, -⟩, -⟩ := configValidate_eq_none_iff.mp valid
  exact clients

theorem semInit_follows {early final : Int} (positive : 1 ≤ final) :
    (∃ n, semInit early = some n ∧ (n : Int) = final) ↔ final = early := by
  rw [semInit]
  split
  · simp only [Option.some.injEq, exists_eq_left']
    omega
  · simp only [reduceCtorEq, false_and, exists_false, false_iff]
    omega

/-- The subsystems run with the final configuration exactly when it does not verify peers, has as
many clients as before the arguments, and has no cache directory, or the one that was cut out of
the earlier configuration. -/
theorem followsConfig_iff {host : Host} {args : List Bytes} {s : Started}
    (started : startup host args = some s) :
    FollowsConfig s ↔
      verifyOf (mentions host args) = false ∧
        clientsOf (mentions host args) = clientsOf (earlyMentions host args) ∧
        (dirOf (mentions host args) = [] ∨ dirOf (mentions host args) =
          if dirOf (earlyMentions host args) = [] then ascii "/tmp/proxy_cache"
          else (dirOf (earlyMentions host args)).take 255) := by
  obtain ⟨config, valid, semaphore, cacheDir, clientContext⟩ := startup_some started
  have positive := maxClients_pos valid
  obtain ⟨clients, dir, verify⟩ := run_defaults (mentions host args)
  obtain ⟨clients', dir', -⟩ := run_defaults (earlyMentions host args)
  rw [← config] at clients dir verify
  change (earlyConfig host args).int .maxClients = _ at clients'
  change (earlyConfig host args).text .cacheDir = _ at dir'
  have counts := @semInit_follows ((earlyConfig host args).int .maxClients) _ positive
  rw [← semaphore, clients', clients] at counts
  have sameDir : s.cacheDir = if dirOf (earlyMentions host args) = [] then ascii "/tmp/proxy_cache"
      else (dirOf (earlyMentions host args)).take 255 := by
    rw [cacheDir, cacheInit, dir', ite_not]
  rw [← sameDir, ← counts, ← clients, ← verify, ← dir]
  constructor
  · intro follows
    have unverified : s.config.flag .tlsVerifyPeer = false := by
      rw [← follows.verifyPeer, clientContext]
    refine ⟨unverified, follows.semaphore, ?_⟩
    by_cases empty : s.config.text .cacheDir = []
    · exact .inl empty
    · exact .inr (follows.cacheDir empty).symm
  · rintro ⟨unverified, follows, kept⟩
    exact
      { semaphore := follows
        cacheDir := fun nonempty => (kept.resolve_left nonempty).symm
        verifyPeer := by rw [clientContext, unverified]
        ca := fun verified => by simp [unverified] at verified }

def bare : Host where
  getenv _ := none
  fopen _ := .error ENOENT
  confExists := false

theorem unverified_followsConfig : ∃ s,
    startup bare [ascii "--tls-verify-peer=0"] = some s ∧ FollowsConfig s := by
  obtain ⟨s, started⟩ := Option.isSome_iff_exists.mp
    (by decide +kernel : (startup bare [ascii "--tls-verify-peer=0"]).isSome = true)
  exact ⟨s, started, (followsConfig_iff started).mpr
    ⟨by decide +kernel, by decide +kernel, .inl (by decide +kernel)⟩⟩

theorem defaults_notFollowed : ∃ s,
    startup bare [ascii "--max-clients=20"] = some s ∧
      s.config.flag .tlsVerifyPeer = true ∧ s.clientContext.verifyPeer = false ∧
      s.config.int .maxClients = 20 ∧ s.semaphore = some 10 ∧ ¬ FollowsConfig s := by
  have done : (startup bare [ascii "--max-clients=20"]).map
      (fun s => (s.config.flag .tlsVerifyPeer, s.clientContext.verifyPeer,
        s.config.int .maxClients, s.semaphore)) = some (true, false, 20, some 10) := by
    decide +kernel
  obtain ⟨s, started, view⟩ := Option.map_eq_some_iff.mp done
  obtain ⟨verified, unverified, clients, semaphore⟩ :
      s.config.flag .tlsVerifyPeer = true ∧ s.clientContext.verifyPeer = false ∧
        s.config.int .maxClients = 20 ∧ s.semaphore = some 10 := by
    simpa using view
  refine ⟨s, started, verified, unverified, clients, semaphore, fun follows => ?_⟩
  exact absurd (unverified.symm.trans follows.verifyPeer) (by simp [verified])

end ProxyServer.Config
