import SagaEngine.Json.Lookup
import SagaEngine.Saga.Context
import SagaEngine.Saga.Execution
import SagaEngine.Saga.Retry
/-!
# Values written as objects

Contexts, budgets and executions, member by member: what is left out keeps its
value.
-/

namespace SagaEngine

/-- The context of an object of texts. -/
def Context.ofMembers (j : Json) : Context :=
  Dictionary.ofList (j.asMembers.map fun m => (m.1, m.2.asText))

/-- The budget of an object; what is absent keeps the built-in value. -/
def RetryPolicy.ofMembers (j : Json) : RetryPolicy :=
  let d : RetryPolicy := {}
  { maxAttempts := j.nat32At "max_attempts" d.maxAttempts
    initialBackoff := j.intAt "initial_backoff_ms" d.initialBackoff
    multiplier := ((j.at? "multiplier").bind Json.float?).getD d.multiplier
    maxBackoff := j.intAt "max_backoff_ms" d.maxBackoff }

namespace Execution

/-- The blob that a member stands for: a text is the blob itself, an object gives
the values. -/
def blobOf : Json → String
  | .string blob => blob
  | values => (Context.ofMembers values).toBlob

/-- Changes the field that a member names. -/
def withMember (e : Execution) (m : String × Json) : Execution :=
  let n := m.2.asInt
  match m.1 with
  | "execution_id" => { e with id := m.2.asText }
  | "saga_type" => { e with sagaType := m.2.asText }
  | "status" => { e with status := (Status.ofName? m.2.asText).getD e.status }
  | "current_step_index" => { e with stepIndex := wrapSigned32 n }
  | "total_steps" => { e with totalSteps := wrapSigned32 n }
  | "context" => { e with context := blobOf m.2 }
  | "retry_count" => { e with retryCount := wrapWord32 n }
  | "last_error" => { e with lastError := m.2.asText }
  | "failed_step" => { e with failedStep := m.2.asText }
  | "failure_reason" => { e with failureReason := m.2.asText }
  | "cancel_requested" => { e with cancelRequested := m.2.asBool }
  | "created_at_ms" => { e with createdAt := wrapWord64 n }
  | "updated_at_ms" => { e with updatedAt := wrapWord64 n }
  | "completed_at_ms" => { e with completedAt := wrapWord64 n }
  | "version" => { e with version := wrapWord64 n }
  | _ => e

/-- Changes the fields that an object names. -/
def withMembers (j : Json) (e : Execution) : Execution := j.asMembers.foldl withMember e

end Execution

end SagaEngine
