import SagaEngine.Config.Settings
import SagaEngine.Recovery.Options
import SagaEngine.Remote.Breaker
import SagaEngine.Saga.Retry
import SagaEngine.Store.Backend
import SagaEngine.Store.FileTree
/-!
# What a configuration amounts to

The options of every part of the daemon: what the configuration leaves out, or
gives as zero, has a built-in value.
-/

namespace SagaEngine.RuntimeSettings

/-- The retry budget of a saga: its own settings, on top of the general ones. -/
def retryPolicy (s : RuntimeSettings) (sagaType : String) : RetryPolicy :=
  let general := RetryPolicy.ofSettings (s.orchestratorOrEmpty.defaultRetry.getD {}) {}
  match s.orchestratorOrEmpty.sagaRetry.get? sagaType with
  | some own => RetryPolicy.ofSettings own general
  | none => general

def recoveryOptions (s : RuntimeSettings) : RecoveryOptions :=
  let r := s.recoveryOrEmpty
  let d : RecoveryOptions := {}
  { interval := Duration.resolve r.interval d.interval
    staleAfter := Duration.resolve r.staleAfter d.staleAfter
    alertAfter := Duration.resolve r.alertAfter d.alertAfter
    batchLimit := if 0 < r.batchLimit then r.batchLimit else d.batchLimit }

/-- Whether the recovery sweep runs: unless its section switches it off. -/
def recoveryEnabled (s : RuntimeSettings) : Bool :=
  match s.recovery with
  | some r => r.enabled
  | none => true

/-- How long a lease lives, in milliseconds. -/
def leaseTtl (s : RuntimeSettings) : Int := Duration.resolve s.orchestratorOrEmpty.leaseTtl 30000

/-- The breaker options of each service. -/
def breakerOptions (s : RuntimeSettings) : List (String × BreakerOptions) :=
  s.collaboratorsOrEmpty.named.map fun c => (c.1, BreakerOptions.ofSettings c.2.breakerOrEmpty)

end SagaEngine.RuntimeSettings

namespace SagaEngine

/-- The store of a backend, with the lines logged about it. Without a backend the
store is in memory. -/
def BackendSettings.build (backend : Option BackendSettings) (files : FileTree) :
    Except StoreFailure Store × List LogEntry :=
  match backend with
  | some (.sqlite path _) =>
    match files.openFailure? path with
    | some failure => (.error failure, [])
    | none => (.ok (.inDatabase path),
        [.info "execution store ready" [.text "backend" "sqlite", .text "path" path]])
  | some (.postgres ..) => (.error .serverUnsupported, [])
  | _ => (.ok .inMemory,
      [.warn "execution store is in-memory; executions do not survive a restart"])

/-- The store that a configuration asks for, with the lines logged about it. -/
def RuntimeSettings.buildStore (s : RuntimeSettings) (files : FileTree) :
    Except StoreFailure Store × List LogEntry :=
  BackendSettings.build s.backend files

end SagaEngine
