import ProxyServer.Config.Model

namespace ProxyServer
open Config

inductive LogFormat where
  | plain
  | squid
  | clf
  | json
  deriving DecidableEq

structure LoggerConfig where
  format : LogFormat
  logFile : Bytes
  useStdout : Bool
  rotationEnabled : Bool
  maxFileSizeMb : Int

/-- The configuration that `main` makes. It leaves `use_stdout` as it finds it. -/
def loggerConfig (cfg : ProxyConfig) (useStdout : Bool) : LoggerConfig where
  format :=
    if cfg.text .logFormat = ascii "JSON" then .json
    else if cfg.text .logFormat = ascii "CLF" then .clf
    else .squid
  logFile := (cfg.text .logFile).take 511
  useStdout := useStdout
  rotationEnabled := cfg.flag .logRotation
  maxFileSizeMb := cfg.int .logMaxSizeMb

/-- `gLogFp` is whether the file with the name of the configuration is open. -/
structure Logger where
  config : LoggerConfig
  gLogFp : Bool
  files : Bytes → Option Bytes
  stdout : Bytes

structure RotateCalls where
  fstat : Bool
  rename : Bool
  fopen : Bool

/-- The product is an `int` before it is an `off_t`, and wraps around. -/
def maxSize (maxFileSizeMb : Int) : Int := toInt (toInt (maxFileSizeMb * 1024) * 1024)

namespace Logger

def content (l : Logger) : Bytes := (l.files l.config.logFile).getD []

def backup (l : Logger) : Bytes := (l.config.logFile ++ ascii ".1").take 1023

def rotated (l : Logger) (calls : RotateCalls) : Logger :=
  let files :=
    if calls.rename then
      Function.update (Function.update l.files l.backup (l.files l.config.logFile))
        l.config.logFile none
    else l.files
  if calls.fopen then
    { l with
      files := Function.update files l.config.logFile
        (some ((files l.config.logFile).getD [])) }
  else { l with gLogFp := false, files := files }

def rotateLogIfNeeded (l : Logger) (calls : RotateCalls) : Logger :=
  if l.config.rotationEnabled = false ∨ l.gLogFp = false then l
  else if calls.fstat then
    if maxSize l.config.maxFileSizeMb ≤ l.content.length then l.rotated calls else l
  else l

theorem rotateLogIfNeeded_config (l : Logger) (calls : RotateCalls) :
    (l.rotateLogIfNeeded calls).config = l.config := by
  simp only [rotateLogIfNeeded, rotated]
  split
  · rfl
  · split
    · split
      · split <;> rfl
      · rfl
    · rfl

end Logger

def RotatesAt (config : LoggerConfig) (limit : Int) : Prop :=
  ∀ (l : Logger) (calls : RotateCalls), l.config = config → l.gLogFp = true → calls.fstat = true →
    l.rotateLogIfNeeded calls = if limit ≤ l.content.length then l.rotated calls else l

theorem maxSize_lt (n : Int) : maxSize n < 2 ^ 31 := by
  have bound := Int.bmod_lt (x := toInt (n * 1024) * 1024) (m := 2 ^ 32) (by decide)
  rw [maxSize, toInt]
  omega

theorem maxSize_eq {n : Int} (positive : 1 ≤ n) (small : n < 2048) : maxSize n = n * 2 ^ 20 := by
  have inner : toInt (n * 1024) = n * 1024 := by
    rw [toInt, Int.bmod_eq_of_le (by omega) (by omega)]
  rw [maxSize, inner, toInt, Int.bmod_eq_of_le (by omega) (by omega)]
  omega

theorem rotateLogIfNeeded_open {l : Logger} {calls : RotateCalls}
    (enabled : l.config.rotationEnabled = true) (isOpen : l.gLogFp = true)
    (known : calls.fstat = true) :
    l.rotateLogIfNeeded calls =
      if maxSize l.config.maxFileSizeMb ≤ l.content.length then l.rotated calls else l := by
  simp [Logger.rotateLogIfNeeded, enabled, isOpen, known]

theorem rotatesAt_iff {cfg : ProxyConfig} (accepted : configValidate cfg = none)
    (enabled : cfg.flag .logRotation = true) (useStdout : Bool) :
    RotatesAt (loggerConfig cfg useStdout) (cfg.int .logMaxSizeMb * 2 ^ 20) ↔
      cfg.int .logMaxSizeMb < 2048 := by
  have positive : 1 ≤ cfg.int .logMaxSizeMb :=
    (configValidate_eq_none_iff.mp accepted).1.2.2.2.2.2.2.2
  constructor
  · intro law
    by_contra large
    -- A file whose size is between the two limits.
    let n := (maxSize (cfg.int .logMaxSizeMb)).toNat
    let l : Logger := ⟨loggerConfig cfg useStdout, true, fun _ => some (List.replicate n 0), []⟩
    have small := maxSize_lt (cfg.int .logMaxSizeMb)
    have size : l.content.length = n := List.length_replicate
    have rotates := @rotateLogIfNeeded_open l ⟨true, true, false⟩ enabled rfl rfl
    rw [law l ⟨true, true, false⟩ rfl rfl rfl, size, if_neg (by omega), if_pos] at rotates
    · simpa [l, Logger.rotated] using congrArg Logger.gLogFp rotates
    · change maxSize (cfg.int .logMaxSizeMb) ≤ n
      omega
  · intro small l calls isConfig isOpen known
    have size : maxSize l.config.maxFileSizeMb = cfg.int .logMaxSizeMb * 2 ^ 20 := by
      rw [isConfig]
      exact maxSize_eq positive small
    rw [rotateLogIfNeeded_open (by rw [isConfig]; exact enabled) isOpen known, size]

def rotatingConfig (limit : String) : ProxyConfig :=
  (configLoadFile (configInitDefaults .zeroed)
    (.ok (ascii "log_rotation=1\nlog_max_size_mb=" ++ ascii limit))).2

theorem rotatingConfig_accepted :
    configValidate (rotatingConfig "10") = none ∧ (rotatingConfig "10").flag .logRotation = true := by
  decide

theorem rotatesAt_iff_ten :
    RotatesAt (loggerConfig (rotatingConfig "10") true)
        ((rotatingConfig "10").int .logMaxSizeMb * 2 ^ 20) ↔
      (rotatingConfig "10").int .logMaxSizeMb < 2048 :=
  rotatesAt_iff rotatingConfig_accepted.1 rotatingConfig_accepted.2 true

def emptyLog : Logger :=
  ⟨loggerConfig (rotatingConfig "2048") true, true,
    Function.update (fun _ => none) (ascii "proxy.log") (some []), []⟩

theorem emptyLog_rotated :
    configValidate (rotatingConfig "2048") = none ∧
    (rotatingConfig "2048").int .logMaxSizeMb * 2 ^ 20 = 2147483648 ∧ emptyLog.content = [] ∧
    (emptyLog.rotateLogIfNeeded ⟨true, true, true⟩).files (ascii "proxy.log.1") = some [] ∧
    ¬ RotatesAt (loggerConfig (rotatingConfig "2048") true)
      ((rotatingConfig "2048").int .logMaxSizeMb * 2 ^ 20) := by
  refine ⟨by decide, by decide, by decide, by decide, fun law => ?_⟩
  have kept := congrArg Logger.gLogFp (law emptyLog ⟨true, true, false⟩ rfl rfl rfl)
  exact absurd kept (by decide)

end ProxyServer
