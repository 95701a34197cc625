import SagaEngine.Dictionary
import SagaEngine.Time.Duration
/-!
# Runtime settings

The configuration of the daemon as it was written: a section that is absent
stays absent, and a field that was left out has its zero value.
-/

namespace SagaEngine

/-- A retry budget; zero values mean "not given". -/
structure RetrySettings where
  maxAttempts : Nat := 0
  initialBackoff : Option Duration := none
  multiplier : Float := 0.0
  maxBackoff : Option Duration := none
  deriving Inhabited

/-- How log lines are written. -/
structure LoggingSettings where
  level : String := ""
  pattern : String := ""
  alertLogPath : String := ""
  includeTraceContext : Bool := false
  deriving Inhabited

/-- Where executions are stored. -/
inductive BackendSettings where
  | memory
  | sqlite (path : String) (walMode : Bool)
  | postgres (connectionUri : String) (maxConnections : Nat)
  deriving Inhabited

/-- The store section; it may name no backend. -/
structure DatabaseSettings where
  backend : Option BackendSettings := none
  deriving Inhabited

/-- Workers, leases and retry budgets. -/
structure OrchestratorSettings where
  workerThreads : Nat := 0
  leaseTtl : Option Duration := none
  defaultRetry : Option RetrySettings := none
  sagaRetry : Dictionary RetrySettings := Dictionary.empty
  deriving Inhabited

/-- The recovery sweep. -/
structure RecoverySettings where
  enabled : Bool := false
  interval : Option Duration := none
  staleAfter : Option Duration := none
  alertAfter : Option Duration := none
  batchLimit : Nat := 0
  deriving Inhabited

/-- One circuit breaker. -/
structure BreakerSettings where
  failureRateThreshold : Float := 0.0
  slidingWindowSize : Nat := 0
  minimumCalls : Nat := 0
  consecutiveFailures : Nat := 0
  openCooldown : Option Duration := none
  halfOpenCalls : Nat := 0
  deriving Inhabited

/-- One collaborating service. -/
structure CollaboratorSettings where
  endpoint : String := ""
  callTimeout : Option Duration := none
  circuitBreaker : Option BreakerSettings := none
  deriving Inhabited

/-- The three collaborating services. -/
structure CollaboratorsSettings where
  inventory : Option CollaboratorSettings := none
  payment : Option CollaboratorSettings := none
  order : Option CollaboratorSettings := none
  deriving Inhabited

/-- Where spans are sent. -/
structure TracingSettings where
  enabled : Bool := false
  endpoint : String := ""
  serviceName : String := ""
  transport : String := ""
  deriving Inhabited

/-- The whole configuration. -/
structure RuntimeSettings where
  logging : Option LoggingSettings := none
  database : Option DatabaseSettings := none
  orchestrator : Option OrchestratorSettings := none
  recovery : Option RecoverySettings := none
  collaborators : Option CollaboratorsSettings := none
  tracing : Option TracingSettings := none
  deriving Inhabited

namespace RuntimeSettings

/-- The logging section, empty if absent. -/
def loggingOrEmpty (s : RuntimeSettings) : LoggingSettings := s.logging.getD {}

/-- The backend that the store section names. -/
def backend (s : RuntimeSettings) : Option BackendSettings := s.database.bind (·.backend)

/-- The orchestrator section, empty if absent. -/
def orchestratorOrEmpty (s : RuntimeSettings) : OrchestratorSettings := s.orchestrator.getD {}

/-- The recovery section, empty if absent. -/
def recoveryOrEmpty (s : RuntimeSettings) : RecoverySettings := s.recovery.getD {}

/-- The collaborators section, empty if absent. -/
def collaboratorsOrEmpty (s : RuntimeSettings) : CollaboratorsSettings := s.collaborators.getD {}

/-- The tracing section, empty if absent. -/
def tracingOrEmpty (s : RuntimeSettings) : TracingSettings := s.tracing.getD {}

end RuntimeSettings

/-- The breaker section of a service, empty if absent. -/
def CollaboratorSettings.breakerOrEmpty (s : CollaboratorSettings) : BreakerSettings :=
  s.circuitBreaker.getD {}

/-- The names of the three services with their sections, in a fixed order. -/
def CollaboratorsSettings.named (s : CollaboratorsSettings) :
    List (String × CollaboratorSettings) :=
  [("inventory", s.inventory.getD {}), ("payment", s.payment.getD {}),
    ("order", s.order.getD {})]

end SagaEngine
