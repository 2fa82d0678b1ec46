import ProxyServer.Logger.AccessLog

namespace ProxyServer
open Config Lib Json

inductive LogLevelEnum where
  | debug
  | info
  | warn
  | error
  | critical
  deriving DecidableEq

namespace LogLevelEnum

def toNat : LogLevelEnum → Nat
  | debug => 0
  | info => 1
  | warn => 2
  | error => 3
  | critical => 4

def levelToString : LogLevelEnum → Bytes
  | debug => ascii "DEBUG"
  | info => ascii "INFO"
  | warn => ascii "WARN"
  | error => ascii "ERROR"
  | critical => ascii "CRITICAL"

def ofConfig (cfg : ProxyConfig) : LogLevelEnum :=
  if cfg.text .logLevel = ascii "DEBUG" then debug
  else if cfg.text .logLevel = ascii "WARN" then warn
  else if cfg.text .logLevel = ascii "ERROR" then error
  else if cfg.text .logLevel = ascii "CRITICAL" then critical
  else info

end LogLevelEnum

/-- The arguments of `logger_log`. `message` is what the format and its arguments stand for, and
`time` is the text of the local time. -/
structure LogCall where
  level : LogLevelEnum
  file : Bytes
  line : Int
  func : Bytes
  message : Bytes
  time : Bytes

namespace LogCall

/-- `vsnprintf` into 2048 bytes. -/
def buffer (call : LogCall) : Bytes := call.message.take 2047

def site (call : LogCall) : Bytes := call.file ++ (ascii ":" ++ ascii (toString call.line))

def text (call : LogCall) (format : LogFormat) : Bytes :=
  match format with
  | .json =>
      ascii "\x7b\"timestamp\":\"" ++ (call.time ++ (ascii "\",\"level\":\"" ++
        (call.level.levelToString ++ (ascii "\",\"file\":\"" ++ (call.site ++
        (ascii "\",\"func\":\"" ++ (call.func ++ (ascii "\",\"msg\":\"" ++ (call.buffer ++
        ascii "\"\x7d")))))))))
  | _ =>
      ascii "[" ++ (call.time ++ (ascii "] [" ++ (call.level.levelToString ++ (ascii "] [" ++
        (call.site ++ (ascii "] " ++ call.buffer))))))

def entry (call : LogCall) (format : LogFormat) : Bytes := (call.text format ++ [10]).take 4095

end LogCall

structure Logging where
  logger : Logger
  level : LogLevelEnum
  useSyslog : Bool
  stderr : Bytes
  syslog : List (LogLevelEnum × Bytes)

namespace Logger

def appendFile (l : Logger) (entry : Bytes) : Logger :=
  if l.gLogFp then
    { l with files := Function.update l.files l.config.logFile (some (l.content ++ entry)) }
  else l

def appendStdout (l : Logger) (entry : Bytes) : Logger :=
  if l.config.useStdout then { l with stdout := l.stdout ++ entry } else l

end Logger

namespace Logging

def loggerInit (config : LoggerConfig) (level : LogLevelEnum) (useSyslog : Bool)
    (files : Bytes → Option Bytes) (fopen : Bool) : Logging where
  logger :=
    if config.logFile ≠ [] ∧ fopen = true then
      ⟨config, true,
        Function.update files config.logFile (some ((files config.logFile).getD [])), []⟩
    else ⟨config, false, files, []⟩
  level := level
  useSyslog := useSyslog
  stderr := []
  syslog := []

def loggerSetLevel (g : Logging) (level : LogLevelEnum) : Logging := { g with level }

/-- In JSON everything goes to `stdout`, in the other formats errors go to `stderr`. -/
def loggerLog (g : Logging) (calls : RotateCalls) (call : LogCall) : Logging :=
  if call.level.toNat < g.level.toNat then g
  else
    let logger := g.logger.rotateLogIfNeeded calls
    let entry := call.entry logger.config.format
    let toStderr := logger.config.format ≠ .json ∧ LogLevelEnum.error.toNat ≤ call.level.toNat
    { g with
      logger := ((if toStderr then logger else logger.appendStdout entry)).appendFile entry
      stderr := if toStderr ∧ logger.config.useStdout then g.stderr ++ entry else g.stderr
      syslog :=
        if g.useSyslog then
          g.syslog ++ [(call.level, ascii "[" ++ (call.site ++ (ascii "] " ++ call.buffer)))]
        else g.syslog }

def loggerAccessLog (g : Logging) (calls : RotateCalls) (clock : ClockTexts) (call : AccessCall) :
    Logging :=
  { g with logger := g.logger.accessLog calls clock call }

end Logging

inductive LogEvent where
  | message (calls : RotateCalls) (call : LogCall)
  | access (calls : RotateCalls) (clock : ClockTexts) (call : AccessCall)
  | setLevel (level : LogLevelEnum)

namespace Logging

def step (g : Logging) : LogEvent → Logging
  | .message calls call => g.loggerLog calls call
  | .access calls clock call => g.loggerAccessLog calls clock call
  | .setLevel level => g.loggerSetLevel level

def entry (g : Logging) : LogEvent → Option Bytes
  | .message _ call =>
      if call.level.toNat < g.level.toNat then none else some (call.entry g.logger.config.format)
  | .access _ clock call => some (logEntry g.logger.config.format clock call)
  | .setLevel _ => none

def entries (g : Logging) : List LogEvent → List Bytes
  | [] => []
  | e :: events => (g.entry e).toList ++ (g.step e).entries events

end Logging
end ProxyServer
