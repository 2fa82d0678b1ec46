import ProxyServer.Config.Model
import ProxyServer.Lib.Override

namespace ProxyServer.Config
open Lib

namespace Setting

abbrev Carrier : Setting → Type
  | int _ => Int
  | size _ => Nat
  | flag _ => Bool
  | text _ => Bytes

def get : (setting : Setting) → ProxyConfig → setting.Carrier
  | int field, cfg => cfg.int field
  | size field, cfg => cfg.size field
  | flag field, cfg => cfg.flag field
  | text field, cfg => cfg.text field

def read : (setting : Setting) → Bytes → setting.Carrier
  | int _, value => atoi value
  | size field, value => field.read value
  | flag _, value => isTrue value
  | text field, value => field.copy value

theorem get_apply (setting : Setting) (value : Bytes) (cfg : ProxyConfig) :
    setting.get (setting.apply value cfg) = setting.read value := by
  cases setting <;> exact Function.update_self _ _ _

theorem get_apply_of_ne (setting other : Setting) (value : Bytes) (cfg : ProxyConfig)
    (different : setting ≠ other) : setting.get (other.apply value cfg) = setting.get cfg := by
  cases setting <;> cases other <;> simp_all [get, apply, Function.update_of_ne]

end Setting

def fields : Fields Setting ProxyConfig Bytes Setting.Carrier where
  get := Setting.get
  read := Setting.read
  put := Setting.apply
  get_put := Setting.get_apply
  get_put_of_ne := Setting.get_apply_of_ne

def lineMention (buffer : Bytes) : Option (Setting × Bytes) :=
  let trimmed := (cstr buffer).dropWhile isspace
  if trimmed = [] ∨ trimmed.head? = some 35 ∨ trimmed.head? = some 59 then none
  else do
    let (key, value) ← parseConfigLine trimmed 256 512
    let setting ← fileKeys.lookup key
    return (setting, value)

def fileMentions (file : Except Int Bytes) : List (Setting × Bytes) :=
  match file with
  | .error _ => []
  | .ok content => (fgets [] content).filterMap lineMention

def envMentions (getenv : Bytes → Option Bytes) : List (Setting × Bytes) :=
  envNames.filterMap fun entry => (getenv entry.1).map (entry.2, ·)

def argMention (argv : Bytes) : Option (Setting × Bytes) :=
  let arg := argv.drop 2
  if 61 ∈ arg then
    (argKeys.lookup (arg.takeWhile (· != 61))).map (·, (arg.dropWhile (· != 61)).tail)
  else (argFlags.lookup arg).map fun field => (.flag field, ascii "1")

theorem loadLine_eq (cfg : ProxyConfig) (buffer : Bytes) :
    loadLine cfg buffer = (lineMention buffer).elim cfg fun m => fields.put m.1 m.2 cfg := by
  simp only [loadLine, lineMention]
  split
  · rfl
  · cases parseConfigLine ((cstr buffer).dropWhile isspace) 256 512 with
    | none => rfl
    | some pair =>
        obtain ⟨key, value⟩ := pair
        cases found : fileKeys.lookup key <;> simp [found, fields]

theorem configLoadFile_eq (cfg : ProxyConfig) (file : Except Int Bytes) :
    (configLoadFile cfg file).2 = fields.run (fileMentions file) cfg := by
  cases file with
  | error errno => rfl
  | ok content => exact fields.foldl_eq_run loadLine_eq _ _

theorem configApplyEnv_eq (getenv : Bytes → Option Bytes) (cfg : ProxyConfig) :
    configApplyEnv getenv cfg = fields.run (envMentions getenv) cfg := by
  refine fields.foldl_eq_run (fun cfg entry => ?_) _ _
  cases getenv entry.1 <;> rfl

theorem applyArg_eq {argv : Bytes} {cfg cfg' : ProxyConfig} (applied : applyArg argv cfg = some cfg') :
    cfg' = (argMention argv).elim cfg fun m => fields.put m.1 m.2 cfg := by
  simp only [applyArg] at applied
  split at applied
  · split at applied
    · rename_i equals
      cases found : argKeys.lookup ((argv.drop 2).takeWhile (· != 61)) with
      | some setting =>
          simp only [found, Option.some.injEq] at applied
          simp only [argMention, if_pos equals, found, Option.map_some, Option.elim_some]
          exact applied.symm
      | none =>
          simp only [found] at applied
          split at applied
          · simp only [argMention, if_pos equals, found, Option.map_none, Option.elim_none]
            exact (Option.some.inj applied).symm
          · simp at applied
    · rename_i bare
      cases found : argFlags.lookup (argv.drop 2) with
      | some field =>
          simp only [found, Option.some.injEq] at applied
          simp only [argMention, if_neg bare, found, Option.map_some, Option.elim_some]
          exact applied.symm
      | none => simp [found] at applied
  · simp at applied

theorem configApplyArgs_eq {cfg cfg' : ProxyConfig} {args : List Bytes}
    (applied : configApplyArgs cfg args = (0, cfg')) :
    cfg' = fields.run (args.filterMap argMention) cfg := by
  induction args generalizing cfg with
  | nil => exact (congrArg Prod.snd applied).symm
  | cons arg args ih =>
      simp only [configApplyArgs] at applied
      cases step : applyArg arg cfg with
      | none => simp [step] at applied
      | some cfg₁ =>
          simp only [step] at applied
          rw [ih applied, applyArg_eq step]
          cases mentioned : argMention arg with
          | none => rw [List.filterMap_cons_none mentioned]; rfl
          | some m => rw [List.filterMap_cons_some mentioned]; rfl

end ProxyServer.Config
