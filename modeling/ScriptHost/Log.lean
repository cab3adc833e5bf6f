/-! Records of what a host wants to be told: a level, a message and named fields. -/

namespace ScriptHost

inductive LogLevel
  | info
  | warn
  | error
  deriving DecidableEq

def LogLevel.name : LogLevel → String
  | info => "info"
  | warn => "warn"
  | error => "error"

structure LogRecord where
  level : LogLevel
  message : String
  fields : List (String × String)
  deriving DecidableEq

end ScriptHost
