import SagaEngine.Config.Settings
import SagaEngine.Json.Message
/-!
# Settings as messages

The fields of every section in JSON. A section that is given twice, under its
two spellings, is read on top of itself. A store section names one backend only.
-/

namespace SagaEngine

namespace Json

/-- A field that is read whole and put into its message. -/
def FieldReader.ofReader (camel snake : String) (reader : Json → Option β) (put : α → β → α) :
    FieldReader α :=
  ⟨camel, snake, fun message j => (reader j).map (put message)⟩

/-- A field that is itself a message. -/
def FieldReader.nested (camel snake : String) (fields : List (FieldReader β)) (blank : β)
    (get : α → Option β) (put : α → β → α) : FieldReader α :=
  ⟨camel, snake, fun message j =>
    (readMessage? fields ((get message).getD blank) j).map (put message)⟩

/-- A field that maps texts to messages. -/
def FieldReader.nestedMap (camel snake : String) (fields : List (FieldReader β)) (blank : β)
    (get : α → Dictionary β) (put : α → Dictionary β → α) : FieldReader α :=
  ⟨camel, snake, fun message j =>
    match j with
    | .object members =>
      (members.foldlM (fun acc (m : String × Json) =>
        (readMessage? fields blank m.2).map (acc.insert m.1)) (get message)).map (put message)
    | _ => none⟩

end Json

open Json

def RetrySettings.fields : List (FieldReader RetrySettings) :=
  [.ofReader "maxAttempts" "max_attempts" word32? fun s n => { s with maxAttempts := n },
    .ofReader "initialBackoff" "initial_backoff" Duration.ofJson?
      fun s d => { s with initialBackoff := some d },
    .ofReader "multiplier" "multiplier" float? fun s x => { s with multiplier := x },
    .ofReader "maxBackoff" "max_backoff" Duration.ofJson?
      fun s d => { s with maxBackoff := some d }]

def LoggingSettings.fields : List (FieldReader LoggingSettings) :=
  [.ofReader "level" "level" text? fun s t => { s with level := t },
    .ofReader "pattern" "pattern" text? fun s t => { s with pattern := t },
    .ofReader "alertLogPath" "alert_log_path" text? fun s t => { s with alertLogPath := t },
    .ofReader "includeTraceContext" "include_trace_context" flag?
      fun s b => { s with includeTraceContext := b }]

/-- A file backend while it is read. -/
structure FileBackend where
  path : String := ""
  walMode : Bool := false

def FileBackend.fields : List (FieldReader FileBackend) :=
  [.ofReader "path" "path" text? fun s t => { s with path := t },
    .ofReader "walMode" "wal_mode" flag? fun s b => { s with walMode := b }]

/-- A server backend while it is read. -/
structure ServerBackend where
  connectionUri : String := ""
  maxConnections : Nat := 0

def ServerBackend.fields : List (FieldReader ServerBackend) :=
  [.ofReader "connectionUri" "connection_uri" text? fun s t => { s with connectionUri := t },
    .ofReader "maxConnections" "max_connections" word32? fun s n => { s with maxConnections := n }]

/-- A field that names the backend, unless one is named already. -/
def DatabaseSettings.backendField (name : String) (reader : Json → Option BackendSettings) :
    FieldReader DatabaseSettings :=
  .plain name fun s j => if s.backend.isSome then none else (reader j).map fun b => ⟨some b⟩

/-- The fields of the store section. -/
def DatabaseSettings.fields : List (FieldReader DatabaseSettings) :=
  [backendField "memory" fun j =>
      (readMessage? ([] : List (FieldReader Unit)) () j).map fun _ => .memory,
    backendField "sqlite" fun j =>
      (readMessage? FileBackend.fields {} j).map fun b => .sqlite b.path b.walMode,
    backendField "postgres" fun j =>
      (readMessage? ServerBackend.fields {} j).map
        fun b => .postgres b.connectionUri b.maxConnections]

def OrchestratorSettings.fields : List (FieldReader OrchestratorSettings) :=
  [.ofReader "workerThreads" "worker_threads" word32? fun s n => { s with workerThreads := n },
    .ofReader "leaseTtl" "lease_ttl" Duration.ofJson? fun s d => { s with leaseTtl := some d },
    .nested "defaultRetry" "default_retry" RetrySettings.fields {} (·.defaultRetry)
      fun s r => { s with defaultRetry := some r },
    .nestedMap "sagaRetry" "saga_retry" RetrySettings.fields {} (·.sagaRetry)
      fun s m => { s with sagaRetry := m }]

def RecoverySettings.fields : List (FieldReader RecoverySettings) :=
  [.ofReader "enabled" "enabled" flag? fun s b => { s with enabled := b },
    .ofReader "interval" "interval" Duration.ofJson? fun s d => { s with interval := some d },
    .ofReader "staleAfter" "stale_after" Duration.ofJson?
      fun s d => { s with staleAfter := some d },
    .ofReader "alertAfter" "alert_after" Duration.ofJson?
      fun s d => { s with alertAfter := some d },
    .ofReader "batchLimit" "batch_limit" word32? fun s n => { s with batchLimit := n }]

def BreakerSettings.fields : List (FieldReader BreakerSettings) :=
  [.ofReader "failureRateThreshold" "failure_rate_threshold" float?
      fun s x => { s with failureRateThreshold := x },
    .ofReader "slidingWindowSize" "sliding_window_size" word32?
      fun s n => { s with slidingWindowSize := n },
    .ofReader "minimumCalls" "minimum_calls" word32? fun s n => { s with minimumCalls := n },
    .ofReader "consecutiveFailures" "consecutive_failures" word32?
      fun s n => { s with consecutiveFailures := n },
    .ofReader "openCooldown" "open_cooldown" Duration.ofJson?
      fun s d => { s with openCooldown := some d },
    .ofReader "halfOpenCalls" "half_open_calls" word32? fun s n => { s with halfOpenCalls := n }]

/-- The fields of a collaborating service. -/
def CollaboratorSettings.fields : List (FieldReader CollaboratorSettings) :=
  [.ofReader "endpoint" "endpoint" text? fun s t => { s with endpoint := t },
    .ofReader "callTimeout" "call_timeout" Duration.ofJson?
      fun s d => { s with callTimeout := some d },
    .nested "circuitBreaker" "circuit_breaker" BreakerSettings.fields {} (·.circuitBreaker)
      fun s b => { s with circuitBreaker := some b }]

def CollaboratorsSettings.fields : List (FieldReader CollaboratorsSettings) :=
  [.nested "inventory" "inventory" CollaboratorSettings.fields {} (·.inventory)
      fun s c => { s with inventory := some c },
    .nested "payment" "payment" CollaboratorSettings.fields {} (·.payment)
      fun s c => { s with payment := some c },
    .nested "order" "order" CollaboratorSettings.fields {} (·.order)
      fun s c => { s with order := some c }]

def TracingSettings.fields : List (FieldReader TracingSettings) :=
  [.ofReader "enabled" "enabled" flag? fun s b => { s with enabled := b },
    .ofReader "endpoint" "endpoint" text? fun s t => { s with endpoint := t },
    .ofReader "serviceName" "service_name" text? fun s t => { s with serviceName := t },
    .ofReader "transport" "transport" text? fun s t => { s with transport := t }]

def RuntimeSettings.fields : List (FieldReader RuntimeSettings) :=
  [.nested "logging" "logging" LoggingSettings.fields {} (·.logging)
      fun s x => { s with logging := some x },
    .nested "database" "database" DatabaseSettings.fields {} (·.database)
      fun s x => { s with database := some x },
    .nested "orchestrator" "orchestrator" OrchestratorSettings.fields {} (·.orchestrator)
      fun s x => { s with orchestrator := some x },
    .nested "recovery" "recovery" RecoverySettings.fields {} (·.recovery)
      fun s x => { s with recovery := some x },
    .nested "collaborators" "collaborators" CollaboratorsSettings.fields {} (·.collaborators)
      fun s x => { s with collaborators := some x },
    .nested "tracing" "tracing" TracingSettings.fields {} (·.tracing)
      fun s x => { s with tracing := some x }]

/-- Reads a configuration from JSON. -/
def RuntimeSettings.ofJson? (j : Json) : Option RuntimeSettings :=
  readMessage? RuntimeSettings.fields {} j

end SagaEngine
