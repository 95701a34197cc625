import SagaEngine.Config.Settings
/-!
# Checking a configuration

The rules that a configuration must keep, in the order in which they are
checked: retry budgets, the recovery sweep, the store, the circuit breakers.
-/

namespace SagaEngine

/-- A rule that a configuration breaks. -/
inductive SettingsFault where
  | multiplierBelowOne (budget : String)
  | backoffsCrossed (budget : String)
  | alertTooEarly
  | filePathMissing
  | serverUriMissing
  | failureRateOutOfRange (service : String)
  | minimumCallsTooMany (service : String)
  | negativeTimeout (service : String)
  deriving DecidableEq, Repr

/-- The wording of a broken rule. -/
def SettingsFault.message : SettingsFault → String
  | multiplierBelowOne budget => budget ++ ".multiplier must be >= 1"
  | backoffsCrossed budget => budget ++ ".max_backoff is shorter than initial_backoff"
  | alertTooEarly => "recovery.alert_after must be longer than recovery.stale_after"
  | filePathMissing => "database.sqlite.path is required"
  | serverUriMissing => "database.postgres.connection_uri is required"
  | failureRateOutOfRange service =>
    "collaborators." ++ service ++
      ".circuit_breaker.failure_rate_threshold must be within [0, 100]"
  | minimumCallsTooMany service =>
    "collaborators." ++ service ++ ".circuit_breaker.minimum_calls exceeds sliding_window_size"
  | negativeTimeout service =>
    "collaborators." ++ service ++ ".call_timeout must not be negative"

namespace RetrySettings

/-- Whether the longest wait is shorter than the first one, both being given. -/
def backoffsCross (s : RetrySettings) : Bool :=
  match s.initialBackoff, s.maxBackoff with
  | some initial, some longest => longest.comparedMillis < initial.comparedMillis
  | _, _ => false

/-- The first rule that a retry budget breaks. -/
def fault? (s : RetrySettings) (budget : String) : Option SettingsFault :=
  if s.multiplier != 0.0 && s.multiplier < 1.0 then some (.multiplierBelowOne budget)
  else if s.backoffsCross then some (.backoffsCrossed budget)
  else none

end RetrySettings

/-- The first rule that the retry budgets break. -/
def OrchestratorSettings.fault? (s : OrchestratorSettings) : Option SettingsFault :=
  ((s.defaultRetry.getD {}).fault? "orchestrator.default_retry").or
    (s.sagaRetry.entries.findSome? fun e => e.2.fault? ("orchestrator.saga_retry." ++ e.1))

/-- The rule that the recovery section breaks: an alert comes later than a resume. -/
def RecoverySettings.fault? (s : RecoverySettings) : Option SettingsFault :=
  match s.staleAfter, s.alertAfter with
  | some stale, some alert =>
    if alert.comparedMillis ≤ stale.comparedMillis then some .alertTooEarly else none
  | _, _ => none

/-- The rule that a backend breaks. -/
def BackendSettings.fault? : BackendSettings → Option SettingsFault
  | memory => none
  | sqlite path _ => if path.isEmpty then some .filePathMissing else none
  | postgres uri _ => if uri.isEmpty then some .serverUriMissing else none

/-- The first rule that a service's section breaks. -/
def CollaboratorSettings.fault? (s : CollaboratorSettings) (service : String) :
    Option SettingsFault :=
  let b := s.breakerOrEmpty
  if b.failureRateThreshold < 0.0 || 100.0 < b.failureRateThreshold then
    some (.failureRateOutOfRange service)
  else if 0 < b.slidingWindowSize && b.slidingWindowSize < b.minimumCalls then
    some (.minimumCallsTooMany service)
  else if (s.callTimeout.getD ⟨0, 0⟩).comparedMillis < 0 then some (.negativeTimeout service)
  else none

/-- The first rule that a configuration breaks. -/
def RuntimeSettings.fault? (s : RuntimeSettings) : Option SettingsFault :=
  s.orchestratorOrEmpty.fault?.or <|
    s.recoveryOrEmpty.fault?.or <|
      (s.backend.bind BackendSettings.fault?).or <|
        s.collaboratorsOrEmpty.named.findSome? fun c => c.2.fault? c.1

/-- Accepts a configuration or names the first rule that it breaks. -/
def RuntimeSettings.validate (s : RuntimeSettings) : Except SettingsFault Unit :=
  match s.fault? with
  | some fault => .error fault
  | none => .ok ()

end SagaEngine
