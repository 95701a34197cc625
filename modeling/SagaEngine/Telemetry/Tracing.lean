import SagaEngine.Json.Writer
import SagaEngine.Saga.IdempotencyKey
import SagaEngine.Telemetry.Logging
/-!
# Spans

A span stands around one step call and is active for its duration, on the thread
that makes the call. A span that is opened while another one is active there is its
child and belongs to its trace.
Without a provider a span is inert. A build without span support has no provider
at any time.
-/

namespace SagaEngine

/-- What a span says about its call; attempts count from one. -/
structure SpanInfo where
  phase : Phase
  executionId : String
  sagaType : String
  step : String
  index : Int
  attempt : Int
  deriving DecidableEq, Repr, Inhabited

/-- The name of the spans of a phase. -/
def SpanInfo.nameOf : Phase → String
  | .execute => "saga.step.execute"
  | .compensate => "saga.step.compensate"

/-- A span; a failed one has an outcome and a message. -/
structure Span where
  id : Nat
  parent : Option Nat
  trace : Nat
  info : SpanInfo
  service : String
  failure : Option (String × String) := none
  deriving DecidableEq, Repr, Inhabited

/-- The state of span recording: the service that the provider speaks for, the
spans that are active on the running thread, innermost first, those that have ended,
and what was done to providers. -/
structure Tracing where
  supported : Bool := false
  provider : Option String := none
  started : Nat := 0
  active : List Span := []
  ended : List Span := []
  actions : List String := []
  deriving DecidableEq, Repr, Inhabited

namespace Tracing

/-- The name under which spans are recorded. -/
def tracerName : String := "saga-orchestrator"

/-- The version under which spans are recorded. -/
def tracerVersion : String := "0.1.0"

/-- Whether spans leave over the web protocol. -/
def usesHttp (s : TracingSettings) : Bool := s.transport = "http"

/-- Where spans are sent: the configuration comes first, then the variable for
spans, then the general one, then the built-in place. -/
def endpoint (s : TracingSettings) (env : Environment) : String :=
  if !s.endpoint.isEmpty then s.endpoint
  else
    match env.get? "OTEL_EXPORTER_OTLP_TRACES_ENDPOINT", env.get? "OTEL_EXPORTER_OTLP_ENDPOINT" with
    | some place, _ => place
    | none, some place => place
    | none, none => if usesHttp s then "http://localhost:4318/v1/traces" else "localhost:4317"

/-- The exporter that a configuration asks for. -/
def exporter (s : TracingSettings) (env : Environment) : String :=
  (if usesHttp s then "http " else "grpc ") ++ endpoint s env

/-- Takes the provider out of service. -/
def shutdown (t : Tracing) : Tracing :=
  match t.provider with
  | some _ => { t with provider := none, actions := t.actions ++ ["flush", "shutdown"] }
  | none => t

/-- Puts a provider into service if spans are wanted, else takes it out; says
whether spans are recorded from now on. -/
def start (t : Tracing) (s : TracingSettings) (env : Environment) : Bool × Tracing :=
  if !t.supported then (false, t)
  else if !s.enabled then (false, t.shutdown)
  else
    let service := if s.serviceName.isEmpty then tracerName else s.serviceName
    (true, { t with
      provider := some service
      actions := t.actions ++ ["provider batch " ++ exporter s env, "set global provider",
        "tracer " ++ tracerName ++ " " ++ tracerVersion] })

/-- Opens a span and makes it active; without a provider there is none. -/
def openSpan (t : Tracing) (info : SpanInfo) : Option Nat × Tracing :=
  match t.provider with
  | none => (none, t)
  | some service =>
    let id := t.started + 1
    let span : Span := match t.active with
      | parent :: _ => { id, parent := some parent.id, trace := parent.trace, info, service }
      | [] => { id, parent := none, trace := id, info, service }
    (some id, { t with started := id, active := span :: t.active })

/-- Notes how the call of a span failed. -/
def fail (t : Tracing) (span : Option Nat) (outcome message : String) : Tracing :=
  { t with active := t.active.map fun s =>
      if some s.id = span then { s with failure := some (outcome, message) } else s }

def close (t : Tracing) (span : Option Nat) : Tracing :=
  { t with
    active := t.active.filter (fun s => some s.id ≠ span)
    ended := t.ended ++ t.active.filter (fun s => some s.id = span) }

/-- The spans as a thread sees them on which these are active, innermost first. -/
def withActive (t : Tracing) (spans : List Span) : Tracing := { t with active := spans }

/-- Hands out what has ended and what was done to providers, and forgets both. -/
def take (t : Tracing) : List Span × List String × Tracing :=
  (t.ended, t.actions, { t with ended := [], actions := [] })

/-- An id in hexadecimal digits of a fixed number. -/
def hexText (n : Nat) : Nat → List Char
  | 0 => []
  | k + 1 => hexText (n / 16) k ++ [Json.hexDigit (n % 16)]

/-- What a line says about the innermost active span. -/
def lineSuffix (t : Tracing) (includeTraceContext : Bool) : String :=
  match t.active with
  | span :: _ =>
    if includeTraceContext then
      " trace_id=" ++ String.ofList (hexText span.trace 32) ++
        " span_id=" ++ String.ofList (hexText span.id 16)
    else ""
  | [] => ""

end Tracing

end SagaEngine
