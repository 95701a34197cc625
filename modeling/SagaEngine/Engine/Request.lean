import SagaEngine.Engine.Program
import SagaEngine.Lease.Table
import SagaEngine.Saga.Definition
import SagaEngine.Saga.Step
import SagaEngine.Store.Memory
import SagaEngine.Telemetry.Alert
import SagaEngine.Telemetry.Tracing
/-!
# What the engine asks of its environment

Everything that an operation of the engine needs from outside is a request: the
clock, fresh ids, the store, leases, the steps themselves, observers, the queue
of the worker pool and the memory of the recovery sweep. What cannot be answered
is a failure with a cause.
-/

namespace SagaEngine

/-- A request. Transactions and spans go by numbers that the environment chose. -/
inductive Request where
  | now
  | freshId
  | begin
  | insert (tx : Nat) (row : Execution)
  | find (tx : Nat) (executionId : String)
  | update (tx : Nat) (row : Execution) (expected : Nat)
  | listByStatus (tx : Nat) (status : Status) (limit : Nat)
  | listStale (tx : Nat) (query : StaleQuery)
  | commit (tx : Nat)
  | drop (tx : Nat)
  | acquire (executionId : String)
  | release (lease : Lease)
  | call (sagaType : String) (call : StepCall)
  | openSpan (info : SpanInfo)
  | failSpan (span : Option Nat) (outcome message : String)
  | closeSpan (span : Option Nat)
  | log (entry : LogEntry)
  | alert (alert : Alert)
  | completed (row : Execution)
  | dispatch (executionId : String)
  | sleep (delay : Int)
  | requeue (executionId : String) (delay : Int)
  | finished (executionId : String)
  | alertedCount
  | wasAlerted (executionId : String)
  | markAlerted (executionId : String)

/-- The type of the answer to a request. A dispatch is answered with whether
anybody takes dispatched executions. -/
@[reducible] def Response : Request → Type
  | .now => Nat
  | .freshId => String
  | .begin => Except StoreFailure Nat
  | .insert .. => Except StoreFailure (Except Refusal Unit)
  | .find .. => Except StoreFailure (Option Execution)
  | .update .. => Except StoreFailure (Except Refusal Nat)
  | .listByStatus .. => Except StoreFailure (List Execution)
  | .listStale .. => Except StoreFailure (List Execution)
  | .commit _ => Except StoreFailure Unit
  | .drop _ => Unit
  | .acquire _ => Option Lease
  | .release _ => Unit
  | .call .. => StepReply
  | .openSpan _ => Option Nat
  | .failSpan .. => Unit
  | .closeSpan _ => Unit
  | .log _ => Unit
  | .alert _ => Unit
  | .completed _ => Unit
  | .dispatch _ => Bool
  | .sleep _ => Unit
  | .requeue .. => Unit
  | .finished _ => Unit
  | .alertedCount => Nat
  | .wasAlerted _ => Bool
  | .markAlerted _ => Unit

/-- What a write was meant to do. -/
inductive WritePurpose where
  | insert
  | update
  | cancel
  deriving DecidableEq, Repr, Inhabited

/-- How a write is named in a failure. -/
def WritePurpose.verb : WritePurpose → String
  | insert => "insert"
  | update => "update"
  | cancel => "cancel"

/-- Why an operation of the engine fails. -/
inductive Failure where
  | registryNotFrozen
  | unregistered (sagaType : String)
  | stepCountDiffers (executionId : String) (recorded : Int) (sagaType : String) (defined : Nat)
  | stepOutOfRange
  | executionMissing (executionId : String)
  | notCancellable (executionId : String) (status : Status)
  | cancelContended (executionId : String)
  | illegalTransition (executionId : String) (source target : Status)
  | undecodable (error : DecodeError)
  | declined (purpose : WritePurpose) (executionId : String) (refusal : Refusal)
  | store (failure : StoreFailure)
  | endless (executionId : String)
  deriving DecidableEq, Repr

namespace Failure

/-- The wording of a declined write: its purpose and, if there is one, the text of
the store; a code that callers do not react to is named. -/
def declinedMessage (purpose : WritePurpose) (executionId : String) (refusal : Refusal) : String :=
  let place := purpose.verb ++ " execution " ++ executionId
  let text := if refusal.message.isEmpty then place else place ++ ": " ++ refusal.message
  match refusal.code with
  | .alreadyExists => text
  | .notFound => text
  | .conflict => text
  | code => text ++ " (" ++ code.name ++ ")"

def wording : Failure → String
  | registryNotFrozen => "saga registry must be frozen before the orchestrator starts"
  | unregistered sagaType => "unregistered saga type: " ++ sagaType
  | stepCountDiffers id recorded sagaType defined =>
    "execution " ++ id ++ " recorded " ++ toString recorded ++ " steps but saga " ++ sagaType ++
      " defines " ++ toString defined
  | stepOutOfRange => "out of range"
  | executionMissing id => "execution not found: " ++ id
  | notCancellable id status =>
    "execution " ++ id ++ " cannot be cancelled in status " ++ status.name
  | cancelContended id => "execution " ++ id ++ " kept changing while recording cancel"
  | illegalTransition id source target =>
    "illegal transition " ++ source.name ++ " -> " ++ target.name ++ " for execution " ++ id
  | undecodable error => error.message
  | declined purpose id refusal => declinedMessage purpose id refusal
  | store failure => failure.message
  | endless id => "execution " ++ id ++ " does not come to an end"

/-- The wording of a failure, as it is raised. -/
def message (f : Failure) : String := untilZero f.wording

def kind : Failure → FailureKind
  | registryNotFrozen => .invalidState
  | unregistered _ => .definition
  | stepCountDiffers .. => .definition
  | stepOutOfRange => .outOfRange
  | executionMissing _ => .notFound
  | notCancellable .. => .invalidState
  | cancelContended _ => .conflict
  | illegalTransition .. => .invalidState
  | undecodable _ => .invalidState
  | declined _ _ refusal =>
    match refusal.code with
    | .alreadyExists => .alreadyExists
    | .notFound => .notFound
    | .conflict => .conflict
    | _ => .runtime
  | store failure => failure.kind
  | endless _ => .runtime

end Failure

/-- An operation of the engine. -/
abbrev Action (α : Type) := Program Request Response Failure α

namespace Action

def ask (q : Request) : Action (Response q) := Program.question q

/-- Writes a line. -/
def log (entry : LogEntry) : Action Unit := ask (.log entry)

/-- Asks a request of the store, whose failures end the operation. -/
def answered (answer : Except StoreFailure α) : Action α :=
  Program.ofExcept (answer.mapError .store)

/-- Runs an operation inside a transaction, which is closed in any case. -/
def withTransaction (body : Nat → Action α) : Action α := do
  let tx ← answered (← ask .begin)
  (body tx).ensuring (ask (.drop tx))

/-- Commits a transaction or fails. -/
def commit (tx : Nat) : Action Unit := do answered (← ask (.commit tx))

end Action

end SagaEngine
