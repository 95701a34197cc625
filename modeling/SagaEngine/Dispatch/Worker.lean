import SagaEngine.Engine.Orchestrator
/-!
# Workers

A worker advances the execution that it was handed until it is terminal or
someone else's, or until an attempt has to wait: then the execution goes back to
the queue with its delay. A failure is logged and leaves the execution to the
recovery sweep.
-/

namespace SagaEngine.Worker

open SagaEngine.Action

/-- Advances an execution a bounded number of times; says whether it went back to
the queue. -/
def advanceWithin (e : Engine) (executionId : String) : Nat → Action Bool
  | 0 => .failed (.endless executionId)
  | moves + 1 => do
    match ← e.advance executionId with
    | .progressed => advanceWithin e executionId moves
    | .retryAfter delay => do
      ask (.requeue executionId delay)
      return true
    | _ => return false

/-- Handles an execution that was taken from the queue. -/
def process (e : Engine) (executionId : String) : Action Unit := do
  match ← (advanceWithin e executionId e.patience).attempt with
  | .ok true => return ()
  | .ok false => ask (.finished executionId)
  | .error failure =>
    log (.err "advancing execution failed"
      [.execution executionId, .text "error" failure.message])
    ask (.finished executionId)

end SagaEngine.Worker
