import TemplateBinding.Text.Basic

/-!
Log records, and the loggers that keep or drop them by level.
-/
namespace TemplateBinding

inductive Level
  | debug
  | info
  | warn
  | error
deriving DecidableEq

namespace Level

def all : List Level := [.debug, .info, .warn, .error]

def name : Level → Text
  | .debug => "debug"
  | .info => "info"
  | .warn => "warn"
  | .error => "error"

def tag : Level → Text
  | .debug => "DEBUG"
  | .info => "INFO"
  | .warn => "WARN"
  | .error => "ERROR"

def severity : Level → Nat
  | .debug => 0
  | .info => 1
  | .warn => 2
  | .error => 3

end Level

structure Record where
  level : Level
  message : Text
deriving DecidableEq

def Record.line (r : Record) : Text := '[' :: r.level.tag ++ "] " ++ r.message ++ ['\n']

inductive Logger
  | console (threshold : Level)
  | silent

namespace Logger

/-- A silent logger calls itself an error logger, and yet keeps no errors. -/
def level : Logger → Level
  | .console threshold => threshold
  | .silent => .error

def enabled : Logger → Level → Bool
  | .console threshold, level => threshold.severity ≤ level.severity
  | .silent, _ => false

/-- The records that the logger lets through. -/
def keep (logger : Logger) (records : List Record) : List Record :=
  records.filter fun r => logger.enabled r.level

def write (logger : Logger) (records : List Record) : Text :=
  (logger.keep records).flatMap Record.line

end Logger
end TemplateBinding
