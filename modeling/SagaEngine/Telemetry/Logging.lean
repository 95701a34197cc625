import SagaEngine.Config.Settings
import SagaEngine.Telemetry.Log
/-!
# The logger of the daemon

The environment beats the configuration, which beats the built-in values.
-/

namespace SagaEngine

/-- The environment variables that are set. -/
abbrev Environment := Dictionary String

/-- How the daemon's logger is set up. -/
structure LoggerSetup where
  level : LogLevel := .info
  pattern : String := ""
  includeTraceContext : Bool := false
  deriving DecidableEq, Repr, Inhabited

namespace LoggerSetup

def name : String := "saga-orchestrator"

/-- The pattern of a line, unless another one is asked for. -/
def defaultPattern : String := "%Y-%m-%dT%H:%M:%S.%e%z [%^%l%$] %v"

/-- Lines of this level and above are written out at once. -/
def flushLevel : LogLevel := .warn

/-- A built-in value, unless the configuration or the environment gives another. -/
def resolve (builtIn configured name : String) (env : Environment) : String :=
  (env.get? name).getD (if configured.isEmpty then builtIn else configured)

/-- Whether lines carry the ids of the span in which they are written. -/
def resolveTraceContext (configured : Bool) (env : Environment) : Bool :=
  match env.get? "SAGA_LOG_INCLUDE_TRACE_CONTEXT" with
  | some value => value = "1" || value = "true"
  | none => configured

/-- The logger that a configuration and an environment ask for. -/
def ofSettings (s : LoggingSettings) (env : Environment) : LoggerSetup where
  level := LogLevel.ofName (resolve "info" s.level "SAGA_LOG_LEVEL" env)
  pattern := resolve defaultPattern s.pattern "SAGA_LOG_PATTERN" env
  includeTraceContext := resolveTraceContext s.includeTraceContext env

end LoggerSetup

end SagaEngine
