import SagaEngine.Telemetry.Alert
import SagaEngine.Telemetry.Tracing
/-!
# What is observed

The lines that were logged, the logger of alerts and the spans, together.
-/

namespace SagaEngine

/-- Everything that observers see, the line written last in front. -/
structure Recorder where
  written : List LogLine := []
  setup : LoggerSetup := {}
  alerts : AlertLogger := {}
  tracing : Tracing := {}
  deriving Inhabited

namespace Recorder

/-- A recorder of a build with or without span support. -/
def ofBuild (spanSupport : Bool) : Recorder := { tracing := { supported := spanSupport } }

/-- The lines in the order written. -/
def lines (r : Recorder) : List LogLine := r.written.reverse

/-- Writes a line. -/
def log (r : Recorder) (e : LogEntry) : Recorder :=
  let text := e.text ++ r.tracing.lineSuffix r.setup.includeTraceContext
  { r with written := { level := e.level, text } :: r.written }

/-- Writes lines. -/
def logAll (r : Recorder) (entries : List LogEntry) : Recorder := entries.foldl log r

def raise (r : Recorder) (a : Alert) : Recorder :=
  let (line, alerts) := r.alerts.raise a
  { r with written := line :: r.written, alerts }

/-- Sets the daemon's logger up. -/
def setUpLogging (r : Recorder) (s : RuntimeSettings) (env : Environment) : Recorder :=
  { r with setup := LoggerSetup.ofSettings s.loggingOrEmpty env }

/-- Puts span recording into or out of service. -/
def startTracing (r : Recorder) (s : RuntimeSettings) (env : Environment) : Bool × Recorder :=
  let (enabled, tracing) := r.tracing.start s.tracingOrEmpty env
  (enabled, { r with tracing })

/-- Provides the logger of alerts. -/
def provideAlerts (r : Recorder) (path : String) : Recorder :=
  { r with alerts := r.alerts.provide path }

/-- Hands out the lines written so far and forgets them. -/
def takeLines (r : Recorder) : List LogLine × Recorder := (r.lines, { r with written := [] })

end Recorder

end SagaEngine
