import ProxyServer.Config.Precedence
import ProxyServer.Config.Startup
import ProxyServer.Decimal

namespace ProxyServer.Config
open Lib

inductive IsLiteral : Bytes → Int → Prop
  | plain {s} : s ≠ [] → s.all isdigit = true → IsLiteral s (digitsValue s)
  | plus {s} : s ≠ [] → s.all isdigit = true → IsLiteral (43 :: s) (digitsValue s)
  | minus {s} : s ≠ [] → s.all isdigit = true → IsLiteral (45 :: s) (-(digitsValue s : Int))

def numericSettings : List Setting :=
  [.int .port, .int .maxClients, .size .maxBytes, .size .maxCacheSize, .size .maxElementSize]

namespace Setting

def number (setting : Setting) (cfg : ProxyConfig) : Int :=
  match setting with
  | int field => cfg.int field
  | size field => cfg.size field
  | flag _ | text _ => 0

def readNumber (setting : Setting) (value : Bytes) : Int :=
  match setting with
  | int _ => atoi value
  | size field => field.read value
  | flag _ | text _ => 0

def InRange (setting : Setting) (n : Int) : Prop :=
  match setting with
  | int .port => 1 ≤ n ∧ n ≤ 65535
  | size .maxCacheSize => True
  | _ => 1 ≤ n

def StoredAs (setting : Setting) (value : Bytes) (n : Int) : Prop :=
  ∀ host args s, startup host args = some s →
    lastMention setting (mentions host args) = some value → setting.number s.config = n

def Meant (setting : Setting) (n : Int) : Prop :=
  match setting with
  | int .port =>
      -2 ^ 31 ≤ n ∧ n < 2 ^ 31 ∨ n < -2 ^ 63 ∨ 2 ^ 63 ≤ n ∨ n % 2 ^ 32 = 0 ∨ 65535 < n % 2 ^ 32
  | int .maxClients =>
      -2 ^ 31 ≤ n ∧ n < 2 ^ 31 ∨ n < -2 ^ 63 ∨ 2 ^ 63 ≤ n ∨ n % 2 ^ 32 = 0 ∨ 2 ^ 31 ≤ n % 2 ^ 32
  | size .maxCacheSize => 0 ≤ n ∧ n < 2 ^ 63
  | _ => 0 ≤ n ∧ n < 2 ^ 31 ∨ n < -2 ^ 63 ∨ n < 2 ^ 63 ∧ n % 2 ^ 32 = 0 ∨ n = 2 ^ 64 - 1

end Setting

theorem IsLiteral.strtol {value : Bytes} {n : Int} (literal : IsLiteral value n) :
    strtol value = max (min n (2 ^ 63 - 1)) (-2 ^ 63) := by
  rw [strtol_eq]
  cases literal with
  | plain _ digits => rw [numberOf_digits digits]
  | plus _ digits => rw [(numberOf_sign digits).2]
  | minus _ digits => rw [(numberOf_sign digits).1]

theorem meant_iff {setting : Setting} (numeric : setting ∈ numericSettings) {value : Bytes}
    {n : Int} (literal : IsLiteral value n) :
    (setting.InRange (setting.readNumber value) → setting.readNumber value = n) ↔
      setting.Meant n := by
  simp only [numericSettings, List.mem_cons, List.not_mem_nil, or_false] at numeric
  rcases numeric with rfl | rfl | rfl | rfl | rfl
  · simp only [Setting.InRange, Setting.readNumber, Setting.Meant, atoi, literal.strtol, toInt,
      Int.bmod_def]
    omega
  · simp only [Setting.InRange, Setting.readNumber, Setting.Meant, atoi, literal.strtol, toInt,
      Int.bmod_def]
    omega
  · simp only [Setting.InRange, Setting.readNumber, Setting.Meant, SizeField.read, atoi,
      literal.strtol, toInt, toSize, Int.bmod_def]
    omega
  · simp only [Setting.InRange, Setting.readNumber, Setting.Meant, SizeField.read,
      literal.strtol, toSize, true_implies]
    omega
  · simp only [Setting.InRange, Setting.readNumber, Setting.Meant, SizeField.read, atoi,
      literal.strtol, toInt, toSize, Int.bmod_def]
    omega

theorem inRange_of_accepted {setting : Setting} (numeric : setting ∈ numericSettings)
    {cfg : ProxyConfig} (accepted : configValidate cfg = none) :
    setting.InRange (setting.number cfg) := by
  obtain ⟨⟨port, portMost, -, clients, bytes, -⟩, ⟨element, -⟩, -⟩ :=
    configValidate_eq_none_iff.mp accepted
  simp only [numericSettings, List.mem_cons, List.not_mem_nil, or_false] at numeric
  rcases numeric with rfl | rfl | rfl | rfl | rfl
  · exact ⟨port, portMost⟩
  · exact clients
  · exact Int.ofNat_le.mpr bytes
  · trivial
  · exact Int.ofNat_le.mpr element

theorem number_run {setting : Setting} (numeric : setting ∈ numericSettings)
    {mentions : List (Setting × Bytes)} {value : Bytes}
    (last : lastMention setting mentions = some value) (cfg : ProxyConfig) :
    setting.number (fields.run mentions cfg) = setting.readNumber value := by
  have got := fields.get_run setting mentions cfg
  rw [last, Option.elim_some] at got
  simp only [numericSettings, List.mem_cons, List.not_mem_nil, or_false] at numeric
  rcases numeric with rfl | rfl | rfl | rfl | rfl
  · exact got
  · exact got
  · exact congrArg Nat.cast got
  · exact congrArg Nat.cast got
  · exact congrArg Nat.cast got

def variableHost (entry value : Bytes) : Host where
  getenv name := if name = entry then some value else none
  fopen _ := .error ENOENT
  confExists := false

theorem exists_entry {setting : Setting} (numeric : setting ∈ numericSettings) :
    ∃ entry, ∀ value, envMentions (variableHost entry value).getenv = [(setting, value)] := by
  have listed : ∀ setting ∈ numericSettings, setting ∈ envNames.map Prod.snd := by decide
  obtain ⟨entry, inside, rfl⟩ := List.mem_map.mp (listed setting numeric)
  exact ⟨entry.1, filterMap_named envNames_distinct inside⟩

theorem accepted_of_inRange {setting : Setting} (numeric : setting ∈ numericSettings)
    {value : Bytes} (inRange : setting.InRange (setting.readNumber value)) :
    configValidate (setting.apply value (configInitDefaults .zeroed)) = none := by
  have defaults : configValidate (configInitDefaults .zeroed) = none := by decide
  rw [configValidate_eq_none_iff] at defaults ⊢
  obtain ⟨⟨port, portMost, address, clients, bytes, paths⟩, ⟨element, log⟩, short⟩ := defaults
  simp only [numericSettings, List.mem_cons, List.not_mem_nil, or_false] at numeric
  rcases numeric with rfl | rfl | rfl | rfl | rfl
  · exact ⟨⟨inRange.1, inRange.2, address, clients, bytes, paths⟩, ⟨element, log⟩, short⟩
  · exact ⟨⟨port, portMost, address, inRange, bytes, paths⟩, ⟨element, log⟩, short⟩
  · exact ⟨⟨port, portMost, address, clients, Int.ofNat_le.mp inRange, paths⟩, ⟨element, log⟩, short⟩
  · exact ⟨⟨port, portMost, address, clients, bytes, paths⟩, ⟨element, log⟩, short⟩
  · exact ⟨⟨port, portMost, address, clients, bytes, paths⟩, ⟨Int.ofNat_le.mp inRange, log⟩, short⟩

theorem exists_startup {setting : Setting} (numeric : setting ∈ numericSettings) {value : Bytes}
    (inRange : setting.InRange (setting.readNumber value)) :
    ∃ host s, startup host [] = some s ∧ lastMention setting (mentions host []) = some value := by
  obtain ⟨entry, sets⟩ := exists_entry numeric
  have only : mentions (variableHost entry value) [] = [(setting, value)] := by
    rw [mentions, earlyMentions, sets]
    rfl
  have config : configApplyEnv (variableHost entry value).getenv (configInitDefaults .zeroed) =
      setting.apply value (configInitDefaults .zeroed) := by
    rw [configApplyEnv_eq, sets]
    rfl
  have file (path : Bytes) : (variableHost entry value).fopen path = .error ENOENT := rfl
  have starts : (startup (variableHost entry value) []).isSome = true := by
    simp [startup, file, configLoadFile, config, applyCommandLine, configApplyArgs,
      accepted_of_inRange numeric inRange]
  obtain ⟨s, started⟩ := Option.isSome_iff_exists.mp starts
  exact ⟨variableHost entry value, s, started, by simp [only, lastMention]⟩

theorem stored_iff {setting : Setting} (numeric : setting ∈ numericSettings) (value : Bytes)
    (n : Int) : setting.StoredAs value n ↔
      (setting.InRange (setting.readNumber value) → setting.readNumber value = n) := by
  constructor
  · intro law inRange
    obtain ⟨host, s, started, last⟩ := exists_startup numeric inRange
    rw [← law _ _ s started last, (startup_some started).1, number_run numeric last]
  · intro law host args s started last
    obtain ⟨config, accepted, -⟩ := startup_some started
    have inRange := inRange_of_accepted numeric accepted
    rw [config, number_run numeric last] at inRange ⊢
    exact law inRange

theorem storedAs_iff {setting : Setting} (numeric : setting ∈ numericSettings) {value : Bytes}
    {n : Int} (literal : IsLiteral value n) : setting.StoredAs value n ↔ setting.Meant n := by
  rw [stored_iff numeric, meant_iff numeric literal]

theorem storedAs_iff_port :
    (Setting.int .port).StoredAs (ascii "8080") 8080 ↔ (Setting.int .port).Meant 8080 :=
  storedAs_iff (by decide) (.plain (s := ascii "8080") (by decide) (by decide))

theorem negative_stored :
    (Setting.size .maxBytes).readNumber (ascii "-1") = 2 ^ 64 - 1 ∧
    ¬ (Setting.size .maxBytes).StoredAs (ascii "-1") (-1) ∧
    (Setting.int .port).readNumber (ascii "4294967297") = 1 ∧
    ¬ (Setting.int .port).StoredAs (ascii "4294967297") 4294967297 := by
  refine ⟨by decide, fun law => ?_, by decide, fun law => ?_⟩
  · have accepted : (1 : Int) ≤ (Setting.size .maxBytes).readNumber (ascii "-1") := by decide
    exact absurd ((stored_iff (by decide) _ _).mp law accepted) (by decide)
  · have accepted : 1 ≤ (Setting.int .port).readNumber (ascii "4294967297") ∧
        (Setting.int .port).readNumber (ascii "4294967297") ≤ 65535 := by decide
    exact absurd ((stored_iff (by decide) _ _).mp law accepted) (by decide)

end ProxyServer.Config
