import ProxyServer.Lib.Segments
import ProxyServer.Logger.Messages

namespace ProxyServer
open Lib Config

namespace Logging

def run (g : Logging) (events : List LogEvent) : Logging := events.foldl step g

def start (cfg : ProxyConfig) (useStdout : Bool) (files : Bytes → Option Bytes) (fopen : Bool) :
    Logging :=
  loggerInit (loggerConfig cfg useStdout) (.ofConfig cfg) false files fopen

end Logging

namespace Logger

def backupContent (l : Logger) : Bytes := (l.files l.backup).getD []

def onDisk (l : Logger) : Bytes := l.backupContent ++ l.content

structure Holds (l : Logger) (s : Segments Bytes) : Prop where
  backup : l.backupContent = s.backup.flatten
  current : l.content = s.current.flatten

def Retained (l : Logger) (s : Segments Bytes) : Prop :=
  s.Retains List.length (maxSize l.config.maxFileSizeMb).toNat

theorem length_flatten_eq (xs : List Bytes) : xs.flatten.length = Segments.weight List.length xs :=
  List.length_flatten

variable {l : Logger} {s : Segments Bytes}

theorem rotateLogIfNeeded_cases (l : Logger) (calls : RotateCalls) :
    l.rotateLogIfNeeded calls = l ∨
      l.gLogFp = true ∧ (maxSize l.config.maxFileSizeMb).toNat ≤ l.content.length ∧
        l.rotateLogIfNeeded calls = l.rotated calls := by
  unfold rotateLogIfNeeded
  split
  · exact Or.inl rfl
  · rename_i enabled
    split
    · split
      · rename_i full
        refine Or.inr ⟨?_, by omega, rfl⟩
        cases isOpen : l.gLogFp with
        | true => rfl
        | false => exact absurd (Or.inr isOpen) enabled
      · exact Or.inl rfl
    · exact Or.inl rfl

theorem rotated_config (l : Logger) (calls : RotateCalls) : (l.rotated calls).config = l.config := by
  unfold rotated
  dsimp only
  split <;> rfl

theorem rotated_files (l : Logger) (calls : RotateCalls) (path : Bytes) :
    ((l.rotated calls).files path).getD [] =
      if calls.rename then
        if path = l.config.logFile then [] else if path = l.backup then l.content
        else (l.files path).getD []
      else (l.files path).getD [] := by
  unfold rotated content
  cases calls.rename <;> cases calls.fopen <;>
    simp only [Function.update_apply, Bool.false_eq_true, if_true, if_false] <;> split_ifs <;>
    simp_all

theorem rotated_backupContent (l : Logger) (calls : RotateCalls) :
    (l.rotated calls).backupContent = ((l.rotated calls).files l.backup).getD [] := by
  rw [backupContent, backup, rotated_config, backup]

theorem rotated_content (l : Logger) (calls : RotateCalls) :
    (l.rotated calls).content = ((l.rotated calls).files l.config.logFile).getD [] := by
  rw [content, rotated_config]

theorem rotated_renamed {calls : RotateCalls} (named : l.backup ≠ l.config.logFile)
    (renamed : calls.rename = true) :
    (l.rotated calls).backupContent = l.content ∧ (l.rotated calls).content = [] := by
  simp [rotated_backupContent, rotated_content, rotated_files, renamed, named]

theorem rotated_kept {calls : RotateCalls} (failed : calls.rename = false) :
    (l.rotated calls).backupContent = l.backupContent ∧ (l.rotated calls).content = l.content := by
  rw [rotated_backupContent, rotated_content, rotated_files, rotated_files, failed]
  exact ⟨rfl, rfl⟩

theorem Holds.rotate (holds : l.Holds s) (retained : l.Retained s)
    (named : l.backup ≠ l.config.logFile) (calls : RotateCalls) :
    ∃ t, (l.rotateLogIfNeeded calls).Holds t ∧ (l.rotateLogIfNeeded calls).Retained t ∧
      t.all = s.all := by
  rcases l.rotateLogIfNeeded_cases calls with same | ⟨-, full, rotates⟩
  · rw [same]
    exact ⟨s, holds, retained, rfl⟩
  · rw [rotates]
    have config := l.rotated_config calls
    cases renamed : calls.rename with
    | true =>
        obtain ⟨backup, current⟩ := rotated_renamed named renamed
        rw [holds.current] at backup full
        rw [length_flatten_eq] at full
        refine ⟨s.rotate, ⟨backup, current⟩, ?_, s.all_rotate⟩
        rw [Retained, config]
        exact Segments.retains_rotate full
    | false =>
        obtain ⟨backup, current⟩ := rotated_kept renamed
        refine ⟨s, ⟨backup.trans holds.backup, current.trans holds.current⟩, ?_, rfl⟩
        rw [Retained, config]
        exact retained

theorem appendFile_config (l : Logger) (entry : Bytes) : (l.appendFile entry).config = l.config := by
  unfold appendFile
  split <;> rfl

theorem appendFile_open {entry : Bytes} (isOpen : l.gLogFp = true)
    (named : l.backup ≠ l.config.logFile) :
    (l.appendFile entry).backupContent = l.backupContent ∧
      (l.appendFile entry).content = l.content ++ entry := by
  rw [appendFile, if_pos isOpen]
  refine ⟨?_, by simp [content]⟩
  change (Function.update l.files l.config.logFile _ l.backup).getD [] = _
  rw [Function.update_of_ne named, backupContent]

theorem Holds.appendFile (holds : l.Holds s) (isOpen : l.gLogFp = true)
    (named : l.backup ≠ l.config.logFile) (entry : Bytes) :
    (l.appendFile entry).Holds (s.append entry) := by
  obtain ⟨backup, current⟩ := @appendFile_open l entry isOpen named
  exact ⟨backup.trans holds.backup, by simp [current, holds.current, Segments.append]⟩

structure SameFiles (l m : Logger) : Prop where
  files : m.files = l.files
  config : m.config = l.config
  gLogFp : m.gLogFp = l.gLogFp

theorem sameFiles_stdout (l : Logger) (entry : Bytes) : SameFiles l (l.appendStdout entry) := by
  unfold appendStdout
  split <;> exact ⟨rfl, rfl, rfl⟩

theorem SameFiles.contents {m : Logger} (same : SameFiles l m) :
    m.backupContent = l.backupContent ∧ m.content = l.content := by
  constructor
  · rw [backupContent, backup, same.config, same.files]
    rfl
  · rw [content, same.config, same.files]
    rfl

theorem SameFiles.holds {m : Logger} (same : SameFiles l m) (holds : l.Holds s) : m.Holds s :=
  ⟨same.contents.1.trans holds.backup, same.contents.2.trans holds.current⟩

theorem appendFile_gLogFp (l : Logger) (entry : Bytes) : (l.appendFile entry).gLogFp = l.gLogFp := by
  unfold appendFile
  split <;> rfl

theorem rotateLogIfNeeded_gLogFp {calls : RotateCalls}
    (isOpen : (l.rotateLogIfNeeded calls).gLogFp = true) : l.gLogFp = true := by
  rcases l.rotateLogIfNeeded_cases calls with same | ⟨isOpen, -, -⟩
  · rwa [same] at isOpen
  · exact isOpen

theorem backup_ne (short : l.config.logFile.length ≤ 511) : l.backup ≠ l.config.logFile := by
  intro same
  have length := congrArg List.length same
  have two : (ascii ".1").length = 2 := rfl
  rw [backup, List.length_take, List.length_append, two] at length
  omega

theorem Holds.emit (holds : l.Holds s) (retained : l.Retained s)
    (short : l.config.logFile.length ≤ 511) {calls : RotateCalls} {m : Logger} {entry : Bytes}
    (same : SameFiles (l.rotateLogIfNeeded calls) m)
    (isOpen : (m.appendFile entry).gLogFp = true) :
    ∃ t, (m.appendFile entry).Holds t ∧ (m.appendFile entry).Retained t ∧
      t.all = s.all ++ [entry] := by
  obtain ⟨t, rotated, still, all⟩ := holds.rotate retained (backup_ne short) calls
  have config := same.config.trans (l.rotateLogIfNeeded_config calls)
  rw [appendFile_gLogFp] at isOpen
  refine ⟨t.append entry, (same.holds rotated).appendFile isOpen ?_ entry, ?_, by simp [all]⟩
  · exact backup_ne (config ▸ short)
  · rw [Retained, appendFile_config, same.config]
    exact still.append entry

theorem accessLog_eq (l : Logger) (calls : RotateCalls) (clock : ClockTexts) (call : AccessCall) :
    l.accessLog calls clock call =
      ((l.rotateLogIfNeeded calls).appendStdout (logEntry l.config.format clock call)).appendFile
        (logEntry l.config.format clock call) := by
  unfold accessLog
  dsimp only
  rw [← l.rotateLogIfNeeded_config calls]
  rcases l.rotateLogIfNeeded calls with ⟨config, isOpen, files, stdout⟩
  unfold appendStdout appendFile
  cases config.useStdout <;> cases isOpen <;> rfl

structure Within (l : Logger) (size : Nat) : Prop where
  backup : l.backupContent.length ≤ size
  current : l.content.length ≤ size

theorem Within.rotate {size room : Nat} (within : l.Within size)
    (short : l.config.logFile.length ≤ 511) (enabled : l.config.rotationEnabled = true)
    (limit : (maxSize l.config.maxFileSizeMb).toNat + room ≤ size) {calls : RotateCalls}
    (known : calls.fstat = true) (renamed : calls.rename = true) (isOpen : l.gLogFp = true) :
    (l.rotateLogIfNeeded calls).Within size ∧
      (l.rotateLogIfNeeded calls).content.length + room ≤ size := by
  rw [rotateLogIfNeeded_open enabled isOpen known]
  split
  · obtain ⟨backup, current⟩ := rotated_renamed (backup_ne short) renamed
    rw [current]
    refine ⟨⟨backup ▸ within.current, by simp [current]⟩, ?_⟩
    rw [List.length_nil]
    omega
  · refine ⟨within, ?_⟩
    omega

theorem Within.emit {size : Nat} (within : l.Within size)
    (short : l.config.logFile.length ≤ 511) (enabled : l.config.rotationEnabled = true)
    (limit : (maxSize l.config.maxFileSizeMb).toNat + 4095 ≤ size) {calls : RotateCalls}
    (known : calls.fstat = true) (renamed : calls.rename = true) {m : Logger} {entry : Bytes}
    (same : SameFiles (l.rotateLogIfNeeded calls) m) (cut : entry.length ≤ 4095) :
    (m.appendFile entry).Within size := by
  obtain ⟨backup, current⟩ := same.contents
  cases isOpen : l.gLogFp with
  | true =>
      obtain ⟨rotated, room⟩ := within.rotate short enabled limit known renamed isOpen
      have config := same.config.trans (l.rotateLogIfNeeded_config calls)
      cases still : m.gLogFp with
      | true =>
          obtain ⟨backup', current'⟩ := @appendFile_open m entry still (backup_ne (config ▸ short))
          refine ⟨backup' ▸ backup ▸ rotated.backup, ?_⟩
          rw [current', current, List.length_append]
          omega
      | false =>
          rw [appendFile, if_neg (by simp [still])]
          exact ⟨backup ▸ rotated.backup, current ▸ rotated.current⟩
  | false =>
      have none : l.rotateLogIfNeeded calls = l := by simp [rotateLogIfNeeded, isOpen]
      rw [none] at same backup current
      rw [appendFile, if_neg (by simp [same.gLogFp, isOpen])]
      exact ⟨backup ▸ within.backup, current ▸ within.current⟩

end Logger

def LogEvent.calls : LogEvent → Option RotateCalls
  | .message calls _ => some calls
  | .access calls _ _ => some calls
  | .setLevel _ => none

namespace Logging

variable {g : Logging} {s : Segments Bytes}

theorem step_cases (g : Logging) (e : LogEvent) :
    (g.step e).logger = g.logger ∧ g.entry e = none ∨
      ∃ calls m entry, e.calls = some calls ∧
        Logger.SameFiles (g.logger.rotateLogIfNeeded calls) m ∧
        (g.step e).logger = m.appendFile entry ∧ g.entry e = some entry := by
  cases e with
  | message calls call =>
      by_cases filtered : call.level.toNat < g.level.toNat
      · left
        simp [step, loggerLog, entry, filtered]
      · right
        have config := g.logger.rotateLogIfNeeded_config calls
        simp only [step, loggerLog, entry, if_neg filtered, config]
        refine ⟨calls, _, _, rfl, ?_, rfl, rfl⟩
        split
        · exact ⟨rfl, rfl, rfl⟩
        · exact Logger.sameFiles_stdout _ _
  | access calls clock call =>
      right
      exact ⟨calls, _, _, rfl, Logger.sameFiles_stdout _ _, g.logger.accessLog_eq calls clock call, rfl⟩
  | setLevel level => exact Or.inl ⟨rfl, rfl⟩

theorem step_config (g : Logging) (e : LogEvent) :
    (g.step e).logger.config = g.logger.config := by
  rcases g.step_cases e with ⟨same, -⟩ | ⟨calls, m, entry, -, same, isStep, -⟩
  · rw [same]
  · rw [isStep, Logger.appendFile_config, same.config, g.logger.rotateLogIfNeeded_config]

theorem run_config (g : Logging) (events : List LogEvent) :
    (g.run events).logger.config = g.logger.config := by
  induction events generalizing g with
  | nil => rfl
  | cons e events ih => exact (ih (g.step e)).trans (g.step_config e)

theorem step_open {e : LogEvent} (isOpen : (g.step e).logger.gLogFp = true) :
    g.logger.gLogFp = true := by
  rcases g.step_cases e with ⟨same, -⟩ | ⟨calls, m, entry, -, same, isStep, -⟩
  · rwa [same] at isOpen
  · rw [isStep, Logger.appendFile_gLogFp, same.gLogFp] at isOpen
    exact Logger.rotateLogIfNeeded_gLogFp isOpen

theorem step_holds (holds : g.logger.Holds s) (retained : g.logger.Retained s)
    (short : g.logger.config.logFile.length ≤ 511) {e : LogEvent}
    (isOpen : (g.step e).logger.gLogFp = true) :
    ∃ t, (g.step e).logger.Holds t ∧ (g.step e).logger.Retained t ∧
      t.all = s.all ++ (g.entry e).toList := by
  rcases g.step_cases e with ⟨same, none⟩ | ⟨calls, m, entry, -, same, isStep, isEntry⟩
  · rw [same, none]
    exact ⟨s, holds, retained, by simp⟩
  · rw [isStep] at isOpen ⊢
    rw [isEntry]
    exact holds.emit retained short same isOpen

theorem run_open {events : List LogEvent} (isOpen : (g.run events).logger.gLogFp = true) :
    g.logger.gLogFp = true := by
  induction events generalizing g with
  | nil => exact isOpen
  | cons e events ih => exact step_open (ih isOpen)

theorem run_holds {events : List LogEvent} (holds : g.logger.Holds s)
    (retained : g.logger.Retained s) (short : g.logger.config.logFile.length ≤ 511)
    (isOpen : (g.run events).logger.gLogFp = true) :
    ∃ t, (g.run events).logger.Holds t ∧ (g.run events).logger.Retained t ∧
      t.all = s.all ++ g.entries events := by
  induction events generalizing g s with
  | nil => exact ⟨s, holds, retained, by simp [entries]⟩
  | cons e events ih =>
      obtain ⟨t, holds, retained, all⟩ :=
        step_holds holds retained short (run_open (show (Logging.run _ events).logger.gLogFp = _ from
          isOpen))
      obtain ⟨u, holds, retained, all'⟩ :=
        ih holds retained (by rw [step_config]; exact short) isOpen
      exact ⟨u, holds, retained, by rw [all', all, entries, List.append_assoc]⟩

theorem entry_ne_nil {e : LogEvent} {entry : Bytes} (isEntry : g.entry e = some entry) :
    0 < entry.length := by
  cases e with
  | message calls call =>
      simp only [Logging.entry, Option.ite_none_left_eq_some, Option.some.injEq] at isEntry
      simp [← isEntry.2, LogCall.entry]
  | access calls clock call =>
      obtain rfl := Option.some.inj isEntry
      simp [logEntry]
  | setLevel level => cases isEntry

theorem entries_positive {events : List LogEvent} : ∀ x ∈ g.entries events, 0 < x.length := by
  induction events generalizing g with
  | nil => simp [entries]
  | cons e events ih =>
      intro x member
      rcases List.mem_append.mp member with first | later
      · exact entry_ne_nil (Option.mem_toList.mp first)
      · exact ih x later

variable (cfg : ProxyConfig) (useStdout : Bool) (files : Bytes → Option Bytes) (fopen : Bool)

theorem start_config : (start cfg useStdout files fopen).logger.config = loggerConfig cfg useStdout := by
  unfold start loggerInit
  split <;> rfl

theorem start_short : (start cfg useStdout files fopen).logger.config.logFile.length ≤ 511 := by
  rw [start_config]
  exact List.length_take_le _ _

def finds : Logger := ⟨loggerConfig cfg useStdout, true, files, []⟩

theorem start_holds (isOpen : (start cfg useStdout files fopen).logger.gLogFp = true) :
    (start cfg useStdout files fopen).logger.Holds
      ⟨[], [(finds cfg useStdout files).backupContent], [(finds cfg useStdout files).content]⟩ := by
  have named := Logger.backup_ne (start_short cfg useStdout files fopen)
  unfold start loggerInit at isOpen named ⊢
  split at isOpen
  · rename_i opened
    rw [if_pos opened] at named ⊢
    constructor
    · change (Function.update files _ _ _).getD [] = _
      rw [Function.update_of_ne named]
      simp [finds, Logger.backupContent, Logger.backup]
    · simp [finds, Logger.content]
  · cases isOpen

/-- What is on disk are the newest of the entries there have been, whole and in order. Entries that
together are not larger than the size from which on the file is rotated are all there. -/
theorem log_keeps_newest (events : List LogEvent)
    (isOpen : ((start cfg useStdout files fopen).run events).logger.gLogFp = true) :
    ∃ lost kept, [(finds cfg useStdout files).backupContent, (finds cfg useStdout files).content] ++
          (start cfg useStdout files fopen).entries events = lost ++ kept ∧
      ((start cfg useStdout files fopen).run events).logger.onDisk = kept.flatten ∧
      ∀ older recent, (start cfg useStdout files fopen).entries events = older ++ recent →
        recent.flatten.length ≤ (maxSize (cfg.int .logMaxSizeMb)).toNat → recent <:+ kept := by
  obtain ⟨t, holds, retained, all⟩ :=
    run_holds (start_holds cfg useStdout files fopen (run_open isOpen)) (Or.inl rfl)
      (start_short cfg useStdout files fopen) isOpen
  refine ⟨t.dropped, t.backup ++ t.current, ?_, ?_, ?_⟩
  · rw [← List.append_assoc]
    exact all.symm
  · rw [Logger.onDisk, holds.backup, holds.current, List.flatten_append]
  · intro older recent split small
    have config : ((start cfg useStdout files fopen).run events).logger.config =
        loggerConfig cfg useStdout := by
      rw [run_config, start_config]
    rw [Logger.Retained, config] at retained
    rw [split, ← List.append_assoc] at all
    rw [Logger.length_flatten_eq] at small
    refine retained.newest all small fun y member => ?_
    exact entries_positive y (split ▸ List.mem_append_right _ member)

theorem entry_le {e : LogEvent} {entry : Bytes} (isEntry : g.entry e = some entry) :
    entry.length ≤ 4095 := by
  cases e with
  | message calls call =>
      simp only [Logging.entry, Option.ite_none_left_eq_some, Option.some.injEq] at isEntry
      exact isEntry.2 ▸ List.length_take_le _ _
  | access calls clock call =>
      obtain rfl := Option.some.inj isEntry
      exact List.length_take_le _ _
  | setLevel level => cases isEntry

theorem step_within {size : Nat} (within : g.logger.Within size)
    (short : g.logger.config.logFile.length ≤ 511)
    (enabled : g.logger.config.rotationEnabled = true)
    (limit : (maxSize g.logger.config.maxFileSizeMb).toNat + 4095 ≤ size) {e : LogEvent}
    (rotates : ∀ calls, e.calls = some calls → calls.fstat = true ∧ calls.rename = true) :
    (g.step e).logger.Within size := by
  rcases g.step_cases e with ⟨same, -⟩ | ⟨calls, m, entry, isCalls, same, isStep, isEntry⟩
  · exact same ▸ within
  · obtain ⟨known, renamed⟩ := rotates calls isCalls
    rw [isStep]
    exact within.emit short enabled limit known renamed same (entry_le isEntry)

theorem run_within {size : Nat} {events : List LogEvent} (within : g.logger.Within size)
    (short : g.logger.config.logFile.length ≤ 511)
    (enabled : g.logger.config.rotationEnabled = true)
    (limit : (maxSize g.logger.config.maxFileSizeMb).toNat + 4095 ≤ size)
    (rotates : ∀ e ∈ events, ∀ calls, e.calls = some calls →
      calls.fstat = true ∧ calls.rename = true) :
    (g.run events).logger.Within size := by
  induction events generalizing g with
  | nil => exact within
  | cons e events ih =>
      have config := g.step_config e
      refine ih (step_within within short enabled limit (rotates e (by simp))) ?_ ?_ ?_ ?_
      · rw [config]
        exact short
      · rw [config]
        exact enabled
      · rw [config]
        exact limit
      · exact fun e member => rotates e (by simp [member])

theorem start_contents :
    (start cfg useStdout files fopen).logger.backupContent = (finds cfg useStdout files).backupContent ∧
      (start cfg useStdout files fopen).logger.content = (finds cfg useStdout files).content := by
  cases isOpen : (start cfg useStdout files fopen).logger.gLogFp with
  | true =>
      have holds := start_holds cfg useStdout files fopen isOpen
      exact ⟨by simpa using holds.backup, by simpa using holds.current⟩
  | false =>
      unfold start loggerInit at isOpen ⊢
      split at isOpen
      · cases isOpen
      · rename_i closed
        rw [if_neg closed]
        exact ⟨rfl, rfl⟩

/-- As long as the file can be looked at and renamed, the log and its backup take no more room than
they did at the start, or than the limit and one entry more each. -/
theorem log_bounded {cfg : ProxyConfig} (accepted : configValidate cfg = none)
    (enabled : cfg.flag .logRotation = true) (small : cfg.int .logMaxSizeMb < 2048)
    (useStdout : Bool) (files : Bytes → Option Bytes) (fopen : Bool) (events : List LogEvent)
    (rotates : ∀ e ∈ events, ∀ calls, e.calls = some calls →
      calls.fstat = true ∧ calls.rename = true) :
    ((start cfg useStdout files fopen).run events).logger.onDisk.length ≤
      2 * max ((cfg.int .logMaxSizeMb).toNat * 2 ^ 20 + 4095)
        (max (finds cfg useStdout files).backupContent.length
          (finds cfg useStdout files).content.length) := by
  have positive : 1 ≤ cfg.int .logMaxSizeMb :=
    (configValidate_eq_none_iff.mp accepted).1.2.2.2.2.2.2.2
  have config := start_config cfg useStdout files fopen
  obtain ⟨backup, content⟩ := start_contents cfg useStdout files fopen
  generalize isSize : max ((cfg.int .logMaxSizeMb).toNat * 2 ^ 20 + 4095)
    (max (finds cfg useStdout files).backupContent.length
      (finds cfg useStdout files).content.length) = size
  have within : (start cfg useStdout files fopen).logger.Within size := by
    constructor
    · rw [backup]
      omega
    · rw [content]
      omega
  have limit : (maxSize (cfg.int .logMaxSizeMb)).toNat + 4095 ≤ size := by
    rw [maxSize_eq positive small]
    omega
  have ends := run_within within (start_short cfg useStdout files fopen)
    (by rw [config]; exact enabled) (by rw [config]; exact limit) rotates
  rw [Logger.onDisk, List.length_append]
  have := ends.backup
  have := ends.current
  omega

theorem step_open_cases (short : g.logger.config.logFile.length ≤ 511) {e : LogEvent}
    {calls : RotateCalls} {entry : Bytes} (isCalls : e.calls = some calls)
    (isEntry : g.entry e = some entry)
    (isOpen : (g.logger.rotateLogIfNeeded calls).gLogFp = true) :
    (g.step e).logger.gLogFp = true ∧
      (g.step e).logger.backupContent = (g.logger.rotateLogIfNeeded calls).backupContent ∧
      (g.step e).logger.content = (g.logger.rotateLogIfNeeded calls).content ++ entry := by
  rcases g.step_cases e with ⟨-, none⟩ | ⟨calls', m, entry', isCalls', same, isStep, isEntry'⟩
  · cases none.symm.trans isEntry
  · obtain rfl := Option.some.inj (isCalls'.symm.trans isCalls)
    obtain rfl := Option.some.inj (isEntry'.symm.trans isEntry)
    have config := same.config.trans (g.logger.rotateLogIfNeeded_config calls')
    obtain ⟨backup, content⟩ := same.contents
    obtain ⟨backup', content'⟩ := @Logger.appendFile_open m entry' (same.gLogFp.trans isOpen)
      (Logger.backup_ne (config ▸ short))
    rw [isStep, Logger.appendFile_gLogFp, backup', content', backup, content]
    exact ⟨same.gLogFp.trans isOpen, rfl, rfl⟩

def twoMessages : List LogEvent :=
  [.message ⟨true, true, true⟩ ⟨.error, ascii "a.c", 1, ascii "f", ascii "first", ascii "now"⟩,
    .message ⟨true, true, true⟩ ⟨.error, ascii "a.c", 2, ascii "f", ascii "second", ascii "now"⟩]

def found (content path : Bytes) : Option Bytes :=
  if path = ascii "proxy.log" then some content else none

theorem twoMessages_rotate {cfg : ProxyConfig} (isFile : cfg.text .logFile = ascii "proxy.log")
    (isLevel : LogLevelEnum.ofConfig cfg = .info) (enabled : cfg.flag .logRotation = true)
    (ten : cfg.int .logMaxSizeMb = 10) {full : Bytes} (size : full.length = 10 * 2 ^ 20) :
    let g := start cfg true (found full) true
    (g.run twoMessages).logger.gLogFp = true ∧ (g.run twoMessages).logger.backupContent = full ∧
      (g.run twoMessages).logger.content = (g.entries twoMessages).flatten := by
  set g := start cfg true (found full) true with g_eq
  have config : g.logger.config = loggerConfig cfg true := start_config ..
  have short (h : Logging) (same : h.logger.config = g.logger.config) :
      h.logger.config.logFile.length ≤ 511 := same ▸ start_short ..
  have limit (h : Logging) (same : h.logger.config = g.logger.config) :
      h.logger.config.rotationEnabled = true ∧
        maxSize h.logger.config.maxFileSizeMb = 10 * 2 ^ 20 := by
    rw [same, config, loggerConfig, enabled, ten]
    exact ⟨rfl, (by decide : maxSize 10 = 10 * 2 ^ 20)⟩
  have content : g.logger.content = full := by
    rw [g_eq, (start_contents cfg true (found full) true).2, finds, Logger.content, loggerConfig,
      isFile]
    rfl
  have level : g.level = .info := isLevel
  have isOpen : g.logger.gLogFp = true := by
    have named : (loggerConfig cfg true).logFile ≠ [] := by
      rw [loggerConfig, isFile]
      exact (by decide : (ascii "proxy.log").take 511 ≠ [])
    rw [g_eq, start, loggerInit]
    simp [named]
  have logs (h : Logging) (same : h.level = g.level) (e : LogEvent) (member : e ∈ twoMessages) :
      ∃ entry, h.entry e = some entry := by
    simp only [twoMessages, List.mem_cons, List.not_mem_nil, or_false] at member
    rcases member with rfl | rfl <;>
      simp [Logging.entry, same, level, LogLevelEnum.toNat]
  obtain ⟨first, isFirst⟩ := logs g rfl twoMessages[0] (by simp)
  have kept : (g.step twoMessages[0]).level = g.level := by
    change (g.loggerLog _ _).level = _
    unfold loggerLog
    split <;> rfl
  obtain ⟨second, isSecond⟩ := logs (g.step twoMessages[0]) kept twoMessages[1] (by simp)
  have rotates : g.logger.rotateLogIfNeeded ⟨true, true, true⟩ =
      g.logger.rotated ⟨true, true, true⟩ := by
    obtain ⟨enabled, isLimit⟩ := limit g rfl
    rw [rotateLogIfNeeded_open enabled isOpen rfl, if_pos (by rw [isLimit, content, size]; norm_num)]
  obtain ⟨renamed, empty⟩ := @Logger.rotated_renamed g.logger ⟨true, true, true⟩
    (Logger.backup_ne (short g rfl)) rfl
  obtain ⟨open₁, backup₁, content₁⟩ := step_open_cases (short g rfl) rfl isFirst
    (by rw [rotates]; exact isOpen)
  rw [rotates, renamed, content] at backup₁
  rw [rotates, empty, List.nil_append] at content₁
  have same := g.step_config twoMessages[0]
  have stays : (g.step twoMessages[0]).logger.rotateLogIfNeeded ⟨true, true, true⟩ =
      (g.step twoMessages[0]).logger := by
    obtain ⟨enabled, isLimit⟩ := limit _ same
    have cut := entry_le isFirst
    rw [rotateLogIfNeeded_open enabled open₁ rfl, if_neg (by rw [isLimit, content₁]; omega)]
  obtain ⟨open₂, backup₂, content₂⟩ := step_open_cases (short _ same) rfl isSecond
    (by rw [stays]; exact open₁)
  rw [stays, backup₁] at backup₂
  rw [stays, content₁] at content₂
  have entries : g.entries twoMessages = [first, second] := by
    rw [show twoMessages = [twoMessages[0], twoMessages[1]] from rfl, Logging.entries,
      Logging.entries, Logging.entries, isFirst, isSecond]
    rfl
  exact ⟨open₂, backup₂, content₂.trans (by simp [entries])⟩

theorem log_keeps_newest_two : ∃ full : Bytes, full.length = 10 * 2 ^ 20 ∧
    ((start (rotatingConfig "10") true (found full) true).run twoMessages).logger.backupContent =
      full ∧
    ∃ lost kept, [(finds (rotatingConfig "10") true (found full)).backupContent,
          (finds (rotatingConfig "10") true (found full)).content] ++
          (start (rotatingConfig "10") true (found full) true).entries twoMessages =
            lost ++ kept ∧
      ((start (rotatingConfig "10") true (found full) true).run twoMessages).logger.onDisk =
        kept.flatten ∧
      ∀ older recent, (start (rotatingConfig "10") true (found full) true).entries twoMessages =
          older ++ recent →
        recent.flatten.length ≤ (maxSize ((rotatingConfig "10").int .logMaxSizeMb)).toNat →
          recent <:+ kept := by
  obtain ⟨full, size⟩ : ∃ full : Bytes, full.length = 10 * 2 ^ 20 :=
    ⟨_, List.length_replicate (a := 88)⟩
  obtain ⟨isOpen, backup, -⟩ := @twoMessages_rotate (rotatingConfig "10") (by decide) (by decide)
    (by decide) (by decide) full size
  exact ⟨full, size, backup,
    log_keeps_newest (rotatingConfig "10") true (found full) true twoMessages isOpen⟩

theorem log_bounded_two : ∃ full : Bytes, full.length = 10 * 2 ^ 20 ∧
    ((start (rotatingConfig "10") true (found full) true).run twoMessages).logger.backupContent =
      full ∧
    ((start (rotatingConfig "10") true (found full) true).run twoMessages).logger.onDisk.length ≤
      2 * max (((rotatingConfig "10").int .logMaxSizeMb).toNat * 2 ^ 20 + 4095)
        (max (finds (rotatingConfig "10") true (found full)).backupContent.length
          (finds (rotatingConfig "10") true (found full)).content.length) := by
  obtain ⟨full, size⟩ : ∃ full : Bytes, full.length = 10 * 2 ^ 20 :=
    ⟨_, List.length_replicate (a := 88)⟩
  obtain ⟨-, backup, -⟩ := @twoMessages_rotate (rotatingConfig "10") (by decide) (by decide)
    (by decide) (by decide) full size
  refine ⟨full, size, backup, ?_⟩
  refine log_bounded rotatingConfig_accepted.1 rotatingConfig_accepted.2 (by decide) true
    (found full) true twoMessages fun e member calls isCalls => ?_
  simp only [twoMessages, List.mem_cons, List.not_mem_nil, or_false] at member
  rcases member with rfl | rfl <;> cases isCalls <;> exact ⟨rfl, rfl⟩

end Logging
end ProxyServer
