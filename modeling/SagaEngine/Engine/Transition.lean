import SagaEngine.Engine.Request
/-!
# Transitions

Every change that the engine makes to the progress of an execution, as data, and
its effect on a row. A transition is stored by `Engine.persist`, which applies it
again to a newer row if only the cancel flag moved in between.
-/

namespace SagaEngine

/-- A change of progress.

* `begun`: the execution was accepted;
* `cancelled`: a cancel request was seen before the step at the index ran;
* `completed`: no step is left;
* `stepDone`: the step succeeded;
* `attemptFailed`: the call, in either direction, may be repeated;
* `budgetSpent`: the step used up its attempts;
* `rejected`: the step was turned down;
* `undoneAll`: nothing is left to undo;
* `stepUndone`: the undo of the step succeeded;
* `gaveUp`: the undo of the step cannot succeed. -/
inductive Transition where
  | begun
  | cancelled
  | completed
  | stepDone (fragment : Context)
  | attemptFailed (attempts : Nat) (message : String)
  | budgetSpent (step : String) (attempts : Nat) (message : String)
  | rejected (step message : String)
  | undoneAll
  | stepUndone (fragment : Context)
  | gaveUp (attempts : Nat) (reason : String)
  deriving DecidableEq

namespace Transition

/-- Why an execution that was cancelled is compensated. -/
def cancelReason : String := "cancelled"

/-- Why an execution whose step used up its attempts is compensated. -/
def budgetReason (attempts : Nat) (message : String) : String :=
  "retries exhausted after " ++ toString attempts ++ " attempts: " ++ message

/-- The blob after a fragment was merged into its values. -/
def mergedBlob (blob : String) (fragment : Context) : Except Failure String :=
  match Context.ofBlob blob with
  | .ok values => .ok (values.mergeFragment fragment).toBlob
  | .error error => .error (.undecodable error)

/-- The blob after its step was marked as rejected; a malformed blob stays as it is. -/
def markedBlob (blob : String) (index : Int) : String :=
  match Context.ofBlob? blob with
  | some values => (values.markRejected index).toBlob
  | none => blob

def apply (t : Transition) (row : Execution) : Except Failure Execution :=
  match t with
  | begun => .ok { row with status := .inProgress }
  | cancelled => .ok { row with
      status := .compensating
      failureReason := cancelReason
      retryCount := 0
      lastError := ""
      stepIndex := wrapSigned32 (row.stepIndex - 1) }
  | completed => .ok { row with status := .completed }
  | stepDone fragment =>
    (mergedBlob row.context fragment).map fun context =>
      let stepIndex := wrapSigned32 (row.stepIndex + 1)
      { row with
        context
        stepIndex
        retryCount := 0
        lastError := ""
        status := if stepIndex = row.totalSteps then .completed else .inProgress }
  | attemptFailed attempts message => .ok { row with retryCount := attempts, lastError := message }
  | budgetSpent step attempts message => .ok { row with
      status := .compensating
      failedStep := step
      failureReason := budgetReason attempts message
      retryCount := 0
      lastError := message }
  | rejected step message => .ok { row with
      context := markedBlob row.context row.stepIndex
      status := .compensating
      failedStep := step
      failureReason := message
      retryCount := 0
      lastError := message }
  | undoneAll => .ok { row with status := .compensated, stepIndex := Execution.compensatedIndex }
  | stepUndone fragment =>
    (mergedBlob row.context fragment).map fun context =>
      let stepIndex := wrapSigned32 (row.stepIndex - 1)
      { row with
        context
        stepIndex
        retryCount := 0
        lastError := ""
        status := if stepIndex < 0 then .compensated else .compensating }
  | gaveUp attempts reason => .ok { row with
      status := .failed
      retryCount := attempts
      lastError := reason }

/-- The row after a transition, if its status may follow. -/
def next (t : Transition) (row : Execution) : Except Failure Execution :=
  match t.apply row with
  | .error failure => .error failure
  | .ok changed =>
    if changed.status ≠ row.status ∧ !row.status.canTransition changed.status then
      .error (.illegalTransition row.id row.status changed.status)
    else .ok changed

end Transition

/-- A changed row with the time of the change. -/
def Execution.stamped (row : Execution) (now : Nat) : Execution :=
  { row with
    updatedAt := now
    completedAt := if row.status.isTerminal then now else row.completedAt }

end SagaEngine
