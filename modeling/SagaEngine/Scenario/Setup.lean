import SagaEngine.Config.Resolution
import SagaEngine.Scenario.World
/-!
# Setting a scenario up

The store comes first. Definitions are registered in order, the create-order saga
after them, and the engine takes over a registry that was frozen. The first error
ends the setup; settings of the services that cannot be read are one.
-/

namespace SagaEngine.Scenario

/-- Why a scenario cannot be set up. -/
inductive SetupError where
  | registration (error : RegistrationError)
  | endpoint (error : EndpointMissing)
  | engine (failure : Failure)
  | store (failure : StoreFailure)
  | malformed
  deriving DecidableEq, Repr

namespace SetupError

def message : SetupError → String
  | registration error => error.message
  | endpoint error => error.message
  | engine failure => failure.message
  | store failure => failure.message
  | malformed => "config"

def kind : SetupError → FailureKind
  | registration error => error.kind
  | endpoint error => error.kind
  | engine failure => failure.kind
  | store failure => failure.kind
  | malformed => .invalidArgument

end SetupError

/-- The services of the create-order saga: whether all of them are there, how they
answer by verb, and the settings of their callers, if they have any. -/
structure OrderServices where
  complete : Bool := true
  scripts : Dictionary (List ServiceAct) := Dictionary.empty
  collaborators : Option CollaboratorsSettings := none
  deriving Inhabited

namespace OrderServices

/-- The callers of the services, with the lines about them. -/
def buildCallers (s : OrderServices) : Except SetupError (Option ServiceCallers) × List LogEntry :=
  match s.collaborators with
  | none => (.ok none, [])
  | some settings =>
    let (answer, lines) := ServiceCallers.ofSettings settings
    (match answer with
      | .ok callers => .ok (some callers)
      | .error missing => .error (.endpoint missing), lines)

/-- Adds the create-order saga to a registry. Services behind callers are always
there. -/
def register (s : OrderServices) (retry : RetryPolicy) (r : Registry) :
    Except RegistrationError Registry := do
  r.add (← CreateOrder.definition (s.complete || s.collaborators.isSome) retry)

end OrderServices

structure ScriptedSaga where
  sagaType : String
  steps : List ScriptedStep
  retry : RetryPolicy := {}
  deriving Inhabited

/-- A scripted saga as it is handed in for registration. -/
def ScriptedSaga.draft (s : ScriptedSaga) : SagaDraft where
  sagaType := s.sagaType
  steps := s.steps.map (·.draft)
  retry := s.retry

/-- What a scenario starts from. -/
structure Setup where
  clock : Int
  backend : BackendSettings := .memory
  leaseTtl : Int := 30000
  sagas : List ScriptedSaga := []
  createOrder : Option (Option OrderServices × RetryPolicy) := none
  freezes : Bool := true
  dispatch : DispatchMode := .nobody
  sleepsSilently : Bool := false
  recovery : RecoveryOptions := {}
  faults : List Fault := []
  recorder : Recorder := {}
  idText : Nat → String := World.plainId

namespace Setup

def scriptedRegistry (s : Setup) : Except SetupError Registry :=
  (s.sagas.foldlM (fun (r : Registry) saga => r.register saga.draft) {}).mapError .registration

/-- What stands behind the steps of each saga. -/
def behaviours (s : Setup) : Dictionary Behaviour :=
  let scripted := Dictionary.ofList
    (s.sagas.map fun saga => (saga.sagaType, .scripted saga.steps))
  if s.createOrder.isSome then scripted.insert CreateOrder.sagaType .createOrder else scripted

/-- The registry with the create-order saga, if it is wanted, and the callers of
its services. -/
def withCreateOrder (s : Setup) (r : Registry) :
    Except SetupError (Registry × Option ServiceCallers) × List LogEntry :=
  match s.createOrder with
  | none => (.ok (r, none), [])
  | some (none, _) => (.error .malformed, [])
  | some (some services, retry) =>
    let (answer, lines) := services.buildCallers
    (do
      let callers ← answer
      let r ← (services.register retry r).mapError .registration
      return (r, callers), lines)

def serviceScripts (s : Setup) : Dictionary (List ServiceAct) :=
  match s.createOrder with
  | some (some services, _) => services.scripts
  | _ => Dictionary.empty

/-- A place without files, where a database can only be kept in memory. -/
def noFiles : FileTree where
  working := []
  entry? _ := none

/-- The store, with the lines about it. -/
def buildStore (s : Setup) : Except SetupError Store × List LogEntry :=
  let (answer, lines) := BackendSettings.build (some s.backend) noFiles
  (answer.mapError .store, lines)

/-- The world at the start of a scenario. -/
def world (s : Setup) (store : Store) (engine : Engine) (callers : Option ServiceCallers)
    (lines : List LogEntry) : World where
  engine := engine
  clock := s.clock
  store := store
  leases := { ttl := s.leaseTtl }
  idText := s.idText
  dispatch := s.dispatch
  sleepsSilently := s.sleepsSilently
  behaviours := s.behaviours
  services := s.serviceScripts
  callers := callers
  faults := s.faults
  recovery := s.recovery
  recorder := s.recorder.logAll lines

/-- Sets a scenario up. -/
def build (s : Setup) : Except SetupError World := do
  let (store, storeLines) := s.buildStore
  let store ← store
  let r ← s.scriptedRegistry
  let (answer, lines) := s.withCreateOrder r
  let (r, callers) ← answer
  let r := if s.freezes then r.freeze else r
  let engine ← (Engine.ofRegistry r).mapError .engine
  return s.world store engine callers (storeLines ++ lines)

end Setup

end SagaEngine.Scenario
