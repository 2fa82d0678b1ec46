import ProxyServer.Config.Startup

namespace ProxyServer.Config
open Lib

def safeFields : List Setting :=
  [.text .logLevel, .size .maxCacheSize, .size .maxElementSize, .flag .enableCache,
    .flag .enableThrottling, .int .rateLimitRps, .int .rateLimitBurst, .int .bandwidthLimitKbps,
    .flag .enableFilter, .text .blocklistFile, .text .allowIpFile, .text .denyIpFile,
    .text .urlBlocklistFile, .text .blockPageFile, .text .logFile]

/-- The arrays have the same size, so `strncpy` copies the whole string. -/
def Setting.copyFrom (setting : Setting) (parsed cfg : ProxyConfig) : ProxyConfig :=
  match setting with
  | .int field => { cfg with int := Function.update cfg.int field (parsed.int field) }
  | .size field => { cfg with size := Function.update cfg.size field (parsed.size field) }
  | .flag field => { cfg with flag := Function.update cfg.flag field (parsed.flag field) }
  | .text field => { cfg with text := Function.update cfg.text field (parsed.text field) }

def applySafe (cfg parsed : ProxyConfig) : ProxyConfig :=
  safeFields.foldl (fun cfg setting => setting.copyFrom parsed cfg) cfg

structure InotifyEvent where
  written : Bool
  ignored : Bool

/-- One round of the loop: the events that `read` returns, whether the watch could be added again,
what `parsed_cfg` has on the stack, and what `fopen` gives. -/
structure Wakeup where
  events : List InotifyEvent
  rewatched : Bool
  stack : ProxyConfig
  file : Except Int Bytes

def Wakeup.shouldReload (w : Wakeup) : Bool :=
  w.events.any (·.written) || (w.events.any (·.ignored) && w.rewatched)

def hotReload (getenv : Bytes → Option Bytes) (cfg : ProxyConfig) (w : Wakeup) : ProxyConfig :=
  if w.shouldReload then
    let (ret, parsed) := configLoadFile (configInitDefaults w.stack) w.file
    if ret = 0 then applySafe cfg (configApplyEnv getenv parsed) else cfg
  else cfg

/-- The round reads the file, which `config_load_file` also does when there is none. -/
def Wakeup.Reloads (w : Wakeup) : Prop :=
  w.shouldReload = true ∧ ∀ errno, w.file = .error errno → errno = ENOENT

instance (w : Wakeup) : Decidable w.Reloads :=
  match found : w.file with
  | .ok _ => decidable_of_iff (w.shouldReload = true) (by simp [Wakeup.Reloads, found])
  | .error errno =>
      decidable_of_iff (w.shouldReload = true ∧ errno = ENOENT) (by simp [Wakeup.Reloads, found])

def fileAndEnv (getenv : Bytes → Option Bytes) (file : Except Int Bytes) : ProxyConfig :=
  configApplyEnv getenv (configLoadFile (configInitDefaults .zeroed) file).2

def copies : Fields Setting ProxyConfig ProxyConfig Setting.Carrier where
  get := Setting.get
  read := Setting.get
  put := Setting.copyFrom
  get_put setting _ _ := by cases setting <;> exact Function.update_self _ _ _
  get_put_of_ne setting other _ _ different := by
    cases setting <;> cases other <;>
      simp_all [Setting.get, Setting.copyFrom, Function.update_of_ne]

theorem get_applySafe (setting : Setting) (cfg parsed : ProxyConfig) :
    setting.get (applySafe cfg parsed) =
      if setting ∈ safeFields then setting.get parsed else setting.get cfg := by
  have merged : applySafe cfg parsed = copies.run (safeFields.map (·, parsed)) cfg := by
    rw [applySafe, Fields.run, List.foldl_map]
    rfl
  have last (l : List Setting) : lastMention setting (l.map (·, parsed)) =
      if setting ∈ l then some parsed else none := by
    induction l with
    | nil => rfl
    | cons other l ih =>
        rw [List.map_cons, lastMention, ih]
        by_cases later : setting ∈ l
        · simp [later]
        · by_cases same : other = setting
          · simp [later, same]
          · simp [later, same, Ne.symm same]
  have got := copies.get_run setting (safeFields.map (·, parsed)) cfg
  rw [last] at got
  rw [merged]
  refine got.trans ?_
  split <;> rfl

theorem get_defaults_of_safe {setting : Setting} (safe : setting ∈ safeFields)
    (stack : ProxyConfig) :
    setting.get (configInitDefaults stack) = setting.get (configInitDefaults .zeroed) := by
  rcases setting with field | field | field | field <;> cases field <;>
    first | rfl | exact absurd safe (by decide)

theorem get_parsed_of_safe {setting : Setting} (safe : setting ∈ safeFields)
    (getenv : Bytes → Option Bytes) (stack : ProxyConfig) (file : Except Int Bytes) :
    setting.get (configApplyEnv getenv (configLoadFile (configInitDefaults stack) file).2) =
      setting.get (fileAndEnv getenv file) := by
  have got (start : ProxyConfig) : setting.get (configApplyEnv getenv
      (configLoadFile start file).2) =
      (lastMention setting (fileMentions file ++ envMentions getenv)).elim (setting.get start)
        setting.read := by
    rw [configApplyEnv_eq, configLoadFile_eq, ← fields.run_append]
    exact fields.get_run setting _ _
  rw [fileAndEnv, got, got, get_defaults_of_safe safe]

def merged (getenv : Bytes → Option Bytes) (cfg : ProxyConfig) (w : Wakeup) : ProxyConfig :=
  applySafe cfg (configApplyEnv getenv (configLoadFile (configInitDefaults w.stack) w.file).2)

theorem hotReload_eq_merged {getenv : Bytes → Option Bytes} {w : Wakeup} (reloads : w.Reloads)
    (cfg : ProxyConfig) : hotReload getenv cfg w = merged getenv cfg w := by
  have loaded : (configLoadFile (configInitDefaults w.stack) w.file).1 = 0 := by
    cases found : w.file with
    | ok content => rfl
    | error errno => exact if_pos (reloads.2 errno found)
  simp only [hotReload, if_pos reloads.1, if_pos loaded, merged]

theorem get_hotReload_of_safe {w : Wakeup} (reloads : w.Reloads) (getenv : Bytes → Option Bytes)
    (cfg : ProxyConfig) {setting : Setting} (safe : setting ∈ safeFields) :
    setting.get (hotReload getenv cfg w) = setting.get (fileAndEnv getenv w.file) := by
  rw [hotReload_eq_merged reloads, merged, get_applySafe, if_pos safe, get_parsed_of_safe safe]

theorem get_hotReload_of_fixed {w : Wakeup} (reloads : w.Reloads) (getenv : Bytes → Option Bytes)
    (cfg : ProxyConfig) {setting : Setting} (fixed : setting ∉ safeFields) :
    setting.get (hotReload getenv cfg w) = setting.get cfg := by
  rw [hotReload_eq_merged reloads, merged, get_applySafe, if_neg fixed]

theorem hotReload_of_not_reloads {getenv : Bytes → Option Bytes} {w : Wakeup}
    (quiet : ¬ w.Reloads) (cfg : ProxyConfig) : hotReload getenv cfg w = cfg := by
  rw [hotReload]
  split
  · rename_i should
    cases found : w.file with
    | ok content => exact absurd ⟨should, by simp [found]⟩ quiet
    | error errno =>
        have other : errno ≠ ENOENT := fun same => quiet ⟨should, by simp [found, same]⟩
        simp [configLoadFile, other]
  · rfl

structure KeepsPrecedence (getenv : Bytes → Option Bytes) (args : List Bytes)
    (file : Except Int Bytes) (before after : ProxyConfig) : Prop where
  commandLine : ∀ setting ∈ safeFields, ∀ value,
    lastMention setting (argMentions args) = some value → setting.get after = setting.read value
  other : ∀ setting ∈ safeFields, lastMention setting (argMentions args) = none →
    setting.get after = setting.get (fileAndEnv getenv file)
  fixed : ∀ setting ∉ safeFields, setting.get after = setting.get before

def AgreesWith (getenv : Bytes → Option Bytes) (args : List Bytes) (file : Except Int Bytes) :
    Prop :=
  ∀ setting ∈ safeFields, ∀ value, lastMention setting (argMentions args) = some value →
    setting.get (fileAndEnv getenv file) = setting.read value

theorem keepsPrecedence_iff {getenv : Bytes → Option Bytes} {w : Wakeup} (reloads : w.Reloads)
    (args : List Bytes) (cfg : ProxyConfig) :
    KeepsPrecedence getenv args w.file cfg (hotReload getenv cfg w) ↔
      AgreesWith getenv args w.file := by
  constructor
  · intro keeps setting safe value isSet
    rw [← keeps.commandLine setting safe value isSet, get_hotReload_of_safe reloads getenv cfg safe]
  · intro agrees
    exact
      { commandLine := fun setting safe value isSet => by
          rw [get_hotReload_of_safe reloads getenv cfg safe, agrees setting safe value isSet]
        other := fun _ safe _ => get_hotReload_of_safe reloads getenv cfg safe
        fixed := fun _ fixed => get_hotReload_of_fixed reloads getenv cfg fixed }

/-- Precedence survives a run exactly when every file that is reloaded agrees with the command
line. -/
theorem hotReload_precedence_iff (getenv : Bytes → Option Bytes) (args : List Bytes)
    (cfg : ProxyConfig) (wakeups : List Wakeup) :
    (∀ past w, past ++ [w] <+: wakeups → w.Reloads →
      KeepsPrecedence getenv args w.file (past.foldl (hotReload getenv) cfg)
        ((past ++ [w]).foldl (hotReload getenv) cfg)) ↔
      ∀ w ∈ wakeups, w.Reloads → AgreesWith getenv args w.file := by
  constructor
  · intro keeps w member reloads
    obtain ⟨past, future, rfl⟩ := List.append_of_mem member
    have last := keeps past w ⟨future, by simp⟩ reloads
    rw [List.foldl_append] at last
    exact (keepsPrecedence_iff reloads args _).mp last
  · intro agrees past w isPrefix reloads
    have member : w ∈ wakeups := isPrefix.subset (by simp)
    rw [List.foldl_append]
    exact (keepsPrecedence_iff reloads args _).mpr (agrees w member reloads)

def watched : Host where
  getenv _ := none
  fopen _ := .ok []
  confExists := false

def edit (content : Bytes) : Wakeup where
  events := [⟨true, false⟩]
  rewatched := false
  stack := .zeroed
  file := .ok content

theorem edit_loses_argument : ∃ s,
    startup watched [ascii "--element-size=20000"] = some s ∧
      s.config.size .maxElementSize = 20000 ∧
      (hotReload watched.getenv s.config (edit (ascii "enable_cache=true\n"))).size
        .maxElementSize = 10240 ∧
      ¬ KeepsPrecedence watched.getenv [ascii "--element-size=20000"]
        (.ok (ascii "enable_cache=true\n")) s.config
        (hotReload watched.getenv s.config (edit (ascii "enable_cache=true\n"))) := by
  have done : (startup watched [ascii "--element-size=20000"]).map (fun s =>
      (s.config.size .maxElementSize, (hotReload watched.getenv s.config
        (edit (ascii "enable_cache=true\n"))).size .maxElementSize)) = some (20000, 10240) := by
    decide +kernel
  obtain ⟨s, started, view⟩ := Option.map_eq_some_iff.mp done
  obtain ⟨before, after⟩ := Prod.mk.inj view
  refine ⟨s, started, before, after, fun keeps => ?_⟩
  have kept := keeps.commandLine (.size .maxElementSize) (by decide) (ascii "20000")
    (by decide +kernel)
  exact absurd (after.symm.trans kept) (by decide +kernel)

theorem fixedValid_hotReload {w : Wakeup} (reloads : w.Reloads) (getenv : Bytes → Option Bytes)
    {cfg : ProxyConfig} (valid : FixedValid cfg) : FixedValid (hotReload getenv cfg w) := by
  have kept (setting : Setting) := @get_hotReload_of_fixed w reloads getenv cfg setting
  have port := kept (.int .port) (by decide)
  have address := kept (.text .bindAddress) (by decide)
  have clients := kept (.int .maxClients) (by decide)
  have bytes := kept (.size .maxBytes) (by decide)
  have dir := kept (.text .cacheDir) (by decide)
  have auth := kept (.flag .enableAuth) (by decide)
  have users := kept (.text .authFile) (by decide)
  have rotation := kept (.int .logMaxSizeMb) (by decide)
  simp only [Setting.get] at port address clients bytes dir auth users rotation
  rwa [FixedValid, port, address, clients, bytes, dir, auth, users, rotation]

theorem safeValid_hotReload_iff {getenv : Bytes → Option Bytes} {w : Wakeup} (reloads : w.Reloads)
    (cfg : ProxyConfig) :
    SafeValid (hotReload getenv cfg w) ↔ SafeValid (fileAndEnv getenv w.file) := by
  have taken (setting : Setting) := @get_hotReload_of_safe w reloads getenv cfg setting
  have element := taken (.size .maxElementSize) (by decide)
  have log := taken (.text .logFile) (by decide)
  have level := taken (.text .logLevel) (by decide)
  have throttling := taken (.flag .enableThrottling) (by decide)
  have rps := taken (.int .rateLimitRps) (by decide)
  have burst := taken (.int .rateLimitBurst) (by decide)
  have bandwidth := taken (.int .bandwidthLimitKbps) (by decide)
  simp only [Setting.get] at element log level throttling rps burst bandwidth
  rw [SafeValid, SafeValid, element, log, level, throttling, rps, burst, bandwidth]

theorem length_text_fileAndEnv {field : TextField} (getenv : Bytes → Option Bytes)
    (file : Except Int Bytes)
    (short : ((configInitDefaults .zeroed).text field).length < field.size) :
    ((fileAndEnv getenv file).text field).length < field.size := by
  have got : (fileAndEnv getenv file).text field =
      (lastMention (.text field) (fileMentions file ++ envMentions getenv)).elim
        ((configInitDefaults .zeroed).text field) field.copy := by
    rw [fileAndEnv, configApplyEnv_eq, configLoadFile_eq, ← fields.run_append]
    exact fields.get_run (.text field) _ _
  rw [got]
  cases lastMention (.text field) (fileMentions file ++ envMentions getenv) with
  | none => exact short
  | some value =>
      rw [Option.elim_some, TextField.copy, List.length_take]
      omega

theorem shortPaths_hotReload {w : Wakeup} (reloads : w.Reloads) (getenv : Bytes → Option Bytes)
    (cfg : ProxyConfig) : ShortPaths (hotReload getenv cfg w) := by
  have taken (setting : Setting) := @get_hotReload_of_safe w reloads getenv cfg setting
  have blocklist := taken (.text .blocklistFile) (by decide)
  have log := taken (.text .logFile) (by decide)
  simp only [Setting.get] at blocklist log
  rw [ShortPaths, blocklist, log]
  exact ⟨length_text_fileAndEnv getenv w.file (by decide),
    length_text_fileAndEnv getenv w.file (by decide)⟩

structure StaysValid (getenv : Bytes → Option Bytes) (cfg : ProxyConfig) (wakeups : List Wakeup) :
    Prop where
  valid : ∀ past, past <+: wakeups →
    configValidate (past.foldl (hotReload getenv) cfg) = none
  refused : ∀ past w, past ++ [w] <+: wakeups → w.Reloads →
    configValidate (merged getenv (past.foldl (hotReload getenv) cfg) w) ≠ none →
    (past ++ [w]).foldl (hotReload getenv) cfg = past.foldl (hotReload getenv) cfg

theorem valid_hotReload_iff {getenv : Bytes → Option Bytes} {cfg : ProxyConfig}
    (valid : configValidate cfg = none) (w : Wakeup) :
    configValidate (hotReload getenv cfg w) = none ↔
      (w.Reloads → SafeValid (fileAndEnv getenv w.file)) := by
  by_cases reloads : w.Reloads
  · rw [configValidate_eq_none_iff, safeValid_hotReload_iff reloads]
    have fixed := fixedValid_hotReload reloads getenv (configValidate_eq_none_iff.mp valid).1
    have short := shortPaths_hotReload reloads getenv cfg
    simp [fixed, short, reloads]
  · simp [hotReload_of_not_reloads reloads, valid, reloads]

/-- A run keeps the configuration valid exactly when every file that is reloaded gives valid
values to the fields that are taken over. -/
theorem hotReload_staysValid_iff {host : Host} {args : List Bytes} {s : Started}
    (started : startup host args = some s) (wakeups : List Wakeup) :
    StaysValid host.getenv s.config wakeups ↔
      ∀ w ∈ wakeups, w.Reloads → SafeValid (fileAndEnv host.getenv w.file) := by
  obtain ⟨-, first, -⟩ := startup_some started
  constructor
  · intro stays w member reloads
    obtain ⟨past, future, rfl⟩ := List.append_of_mem member
    have before := stays.valid past (List.prefix_append _ _)
    have after := stays.valid (past ++ [w]) ⟨future, by simp⟩
    rw [List.foldl_append] at after
    exact (valid_hotReload_iff before w).mp after reloads
  · intro good
    have valid : ∀ past, past <+: wakeups →
        configValidate (past.foldl (hotReload host.getenv) s.config) = none := by
      intro past
      induction past using List.reverseRecOn with
      | nil => exact fun _ => first
      | append_singleton past w ih =>
          intro isPrefix
          have before := ih ((List.prefix_append past [w]).trans isPrefix)
          rw [List.foldl_append]
          exact (valid_hotReload_iff before w).mpr (good w (isPrefix.subset (by simp)))
    refine ⟨valid, fun past w isPrefix reloads invalid => ?_⟩
    have after := valid (past ++ [w]) isPrefix
    rw [List.foldl_append, List.foldl_cons, List.foldl_nil, hotReload_eq_merged reloads] at after
    exact absurd after invalid

theorem watched_starts : ∃ s, startup watched [] = some s :=
  Option.isSome_iff_exists.mp (by decide +kernel)

theorem throttled_safeValid :
    SafeValid (fileAndEnv watched.getenv (.ok (ascii "enable_throttling=1\n"))) := by
  rw [SafeValid]
  decide +kernel

theorem edit_staysValid : ∃ s, startup watched [] = some s ∧
    StaysValid watched.getenv s.config [edit (ascii "enable_throttling=1\n")] := by
  obtain ⟨s, started⟩ := watched_starts
  refine ⟨s, started, (hotReload_staysValid_iff started _).mpr fun w member _ => ?_⟩
  obtain rfl := List.mem_singleton.mp member
  exact throttled_safeValid

theorem edit_invalid : ∃ s, startup watched [] = some s ∧
    (configValidate (hotReload watched.getenv s.config (edit (ascii "log_level=FOO\n")))).isSome ∧
    ¬ StaysValid watched.getenv s.config [edit (ascii "log_level=FOO\n")] := by
  obtain ⟨s, started⟩ := watched_starts
  have invalid : ¬ SafeValid (fileAndEnv watched.getenv (.ok (ascii "log_level=FOO\n"))) := by
    rw [SafeValid]
    decide +kernel
  have reloads : (edit (ascii "log_level=FOO\n")).Reloads := by decide
  have after : ¬ configValidate
      (hotReload watched.getenv s.config (edit (ascii "log_level=FOO\n"))) = none := fun valid =>
    invalid ((safeValid_hotReload_iff reloads s.config).mp
      (configValidate_eq_none_iff.mp valid).2.1)
  refine ⟨s, started, Option.isSome_iff_ne_none.mpr after, fun stays => ?_⟩
  exact after (stays.valid [edit (ascii "log_level=FOO\n")] (List.prefix_refl _))

end ProxyServer.Config
