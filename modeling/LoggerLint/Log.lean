/-!
# Log lines

A run leaves a trace of what it did. A line of the log has a level, the part of the program that wrote
it, and a message; which levels are shown is up to the command line.
-/

namespace LoggerLint

/-- How much a log line matters. -/
inductive LogLevel where
  | debug | info | warning
  deriving DecidableEq, Repr, Inhabited

namespace LogLevel

/-- The word for a level. -/
def word : LogLevel → String
  | .debug => "DEBUG"
  | .info => "INFO"
  | .warning => "WARNING"

end LogLevel

/-- One line of the log. -/
structure LogLine where
  /-- how much it matters -/
  level : LogLevel
  /-- the part of the program that wrote it -/
  origin : String
  /-- what it says -/
  message : String
  deriving DecidableEq, Repr, Inhabited

namespace LogLine

/-- The line as it is shown. -/
def render (line : LogLine) : String :=
  line.level.word ++ " " ++ line.origin ++ ": " ++ line.message ++ "\n"

end LogLine

end LoggerLint
