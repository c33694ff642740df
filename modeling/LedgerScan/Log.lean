/-!
# Log events

What the library reports beside its answers. Reporting changes no answer, so events are plain
data: each part of the library computes the events of an outcome from the outcome itself, and the
caller puts them in order. `Event.line` is one line of the log.
-/

namespace LedgerScan

/-- How much an event matters. -/
inductive Level where
  | debug
  | info
  | warn
  deriving DecidableEq, Repr

/-- The word for a level. -/
def Level.word : Level → String
  | .debug => "DEBUG"
  | .info => "INFO"
  | .warn => "WARN"

/-- One event: a message and any named values attached to it. -/
structure Event where
  level : Level
  message : String
  attached : List (String × String)
  deriving DecidableEq, Repr

namespace Event

/-- An event for those who look into a problem. -/
def debug (message : String) : Event := ⟨.debug, message, []⟩

/-- An event that says what has been done. -/
def info (message : String) : Event := ⟨.info, message, []⟩

/-- An event about something that is not as it should be. -/
def warn (message : String) : Event := ⟨.warn, message, []⟩

/-- The line of an event: level, message, then each attached value after its name. -/
def line (e : Event) : String :=
  e.attached.foldl (fun text value => text ++ " " ++ value.1 ++ "=" ++ value.2)
    (e.level.word ++ " " ++ e.message)

end Event

end LedgerScan
