import SagaEngine.Telemetry.Log
/-!
# Alerts

An alert asks a person to look at an execution. Alerts go to a logger of their
own, which writes to the error stream and, if a path was given, to a file. The
logger is made when it is first needed and made anew when a path is given.
-/

namespace SagaEngine

/-- A call for attention. -/
structure Alert where
  executionId : String
  sagaType : String
  status : String
  reason : String
  deriving DecidableEq, Repr, Inhabited

def Alert.text (a : Alert) : String :=
  "SAGA ALERT execution_id=" ++ a.executionId ++ " saga_type=" ++ a.sagaType ++ " status=" ++
    a.status ++ " reason=\"" ++ a.reason ++ "\""

/-- The logger of alerts: where it writes, once it exists. -/
structure AlertLogger where
  sinks : Option (List String) := none
  deriving DecidableEq, Repr, Inhabited

namespace AlertLogger

def name : String := "saga-alerts"

/-- The sinks of a logger with a file at a path, or without one. -/
def sinksFor (path : String) : List String :=
  if path.isEmpty then ["stderr"] else ["stderr", "file:" ++ path]

/-- Provides a logger; an existing one is kept unless a path is given. -/
def provide (l : AlertLogger) (path : String) : AlertLogger :=
  if l.sinks.isSome && path.isEmpty then l else ⟨some (sinksFor path)⟩

/-- Writes an alert, providing the logger if need be. -/
def raise (l : AlertLogger) (a : Alert) : LogLine × AlertLogger :=
  let l := l.provide ""
  ({ level := .critical, text := a.text, logger := some (name, l.sinks.getD []) }, l)

/-- Forgets the logger. -/
def shutdown (_ : AlertLogger) : AlertLogger := {}

end AlertLogger

end SagaEngine
