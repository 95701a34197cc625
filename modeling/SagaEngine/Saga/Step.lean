import SagaEngine.Remote.Call
import SagaEngine.Saga.Context
import SagaEngine.Saga.IdempotencyKey
import SagaEngine.Text.ZeroEnded
/-!
# Step calls

What a step is given when it is called in either direction, and what comes back:
a result with an outcome, or a raised error.
-/

namespace SagaEngine

/-- The input of one call. `rejected` is set on an undo only: the forward call of
the step was turned down, so there is nothing to take back. -/
structure StepCall where
  phase : Phase
  step : String
  executionId : String
  index : Int
  context : Context
  rejected : Bool := false
  deriving DecidableEq

/-- The idempotency key of a call. -/
def StepCall.key (c : StepCall) : String := IdempotencyKey.ofPhase c.executionId c.index c.phase

/-- What a call returns; the fragment of a success is merged into the context. -/
structure StepResult where
  outcome : Outcome
  message : String := ""
  fragment : Context := Dictionary.empty
  deriving DecidableEq, Inhabited

namespace StepResult

/-- A success. -/
def ok (fragment : Context := Dictionary.empty) : StepResult := ⟨.ok, "", fragment⟩

/-- A disturbance that may pass. -/
def retryable (message : String) : StepResult := ⟨.retryable, message, Dictionary.empty⟩

/-- A rejection. -/
def terminal (message : String) : StepResult := ⟨.terminal, message, Dictionary.empty⟩

end StepResult

/-- How a call came back. -/
inductive StepReply where
  | returned (result : StepResult)
  | threw (message : String)
  | threwOther
  deriving DecidableEq, Inhabited

/-- A raised error counts as a disturbance that may pass. -/
def StepReply.result : StepReply → StepResult
  | returned result => result
  | threw message => .retryable ("step threw: " ++ untilZero message)
  | threwOther => .retryable "step threw a non-standard exception"

end SagaEngine
