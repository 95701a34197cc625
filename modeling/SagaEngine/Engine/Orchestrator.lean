import SagaEngine.Engine.Transition
import SagaEngine.Saga.Registry
/-!
# The engine

Executions are started, advanced, cancelled and resumed. One `advance` makes at
most one step call and stores its result: the lease on the execution is held for
that call only, every write names the version it replaces, and a writer that
lost the race to another owner abandons the execution to it. A lost race to a
writer that changed no progress is run again on the newer row.
-/

namespace SagaEngine

open SagaEngine.Action

/-- An engine: a registry that takes no further definitions, and how often one
operation may advance an execution. -/
structure Engine where
  registry : Registry
  patience : Nat
  frozen : registry.frozen = true

/-- What an advance came to. -/
inductive Advanced where
  | progressed
  | retryAfter (delay : Int)
  | terminal
  | abandoned
  deriving DecidableEq, Repr, Inhabited

namespace Engine

/-- How often a write is tried. -/
def writeAttempts : Nat := 3

/-- How often one operation may advance an execution, unless told otherwise. -/
def defaultPatience : Nat := 1 <<< 80

/-- The engine of a registry, which must be frozen. -/
def ofRegistry (registry : Registry) (patience : Nat := defaultPatience) :
    Except Failure Engine :=
  if h : registry.frozen = true then .ok ⟨registry, patience, h⟩ else .error .registryNotFrozen

def definition (e : Engine) (sagaType : String) : Except Failure SagaDefinition :=
  match e.registry.find? sagaType with
  | some d => .ok d
  | none => .error (.unregistered sagaType)

/-- The definition of an execution, which must have the recorded number of steps. -/
def definitionOf (e : Engine) (row : Execution) : Except Failure SagaDefinition :=
  match e.definition row.sagaType with
  | .error failure => .error failure
  | .ok d =>
    if (d.stepCount : Int) = row.totalSteps then .ok d
    else .error (.stepCountDiffers row.id row.totalSteps row.sagaType d.stepCount)

def stepName (d : SagaDefinition) (index : Int) : Except Failure String :=
  match d.stepAt? index with
  | some name => .ok name
  | none => .error .stepOutOfRange

/-! ## Reading -/

/-- The stored row of an execution. -/
def load (executionId : String) : Action (Option Execution) :=
  withTransaction fun tx => do
    let row ← answered (← ask (.find tx executionId))
    commit tx
    return row

/-- The stored row of an execution that must exist. -/
def getStatus (executionId : String) : Action Execution := do
  match ← load executionId with
  | some row => return row
  | none => .failed (.executionMissing executionId)

/-- The stored rows in a status, oldest first. -/
def list (status : Status) (limit : Nat) : Action (List Execution) :=
  withTransaction fun tx => do
    let rows ← answered (← ask (.listByStatus tx status limit))
    commit tx
    return rows

/-! ## Writing progress -/

/-- How one try to write ended. -/
inductive Written where
  | stored (row : Execution)
  | vanished
  | outrun
  deriving DecidableEq

/-- Tries once to replace a row by its successor. -/
def writeOnce (base row : Execution) : Action Written :=
  withTransaction fun tx => do
    match ← ask (.update tx row base.version) with
    | .error failure => .failed (.store failure)
    | .ok (.error refusal) =>
      match refusal.code with
      | .notFound =>
        log (.warn "execution disappeared during write" [.execution base.id])
        return .vanished
      | .conflict => return .outrun
      | _ => .failed (.declined .update base.id refusal)
    | .ok (.ok version) =>
      match ← ask (.commit tx) with
      | .ok _ => return .stored { row with version }
      | .error failure =>
        if failure.kind = .conflict then
          log (.debug "commit lost version race"
            [.execution base.id, .text "error" failure.message])
          return .outrun
        else .failed (.store failure)

/-- Gives an execution up to the writer that advanced it. -/
def abandon (executionId : String) : Action (Option Execution) := do
  log (.info "execution advanced by another writer, abandoning" [.execution executionId])
  return none

/-- Stores a transition, within a number of tries. -/
def persistWithin (t : Transition) : Nat → Execution → Action (Option Execution)
  | 0, _ => return none
  | tries + 1, base => do
    let row ← Program.ofExcept (t.next base)
    let now ← ask .now
    match ← writeOnce base (row.stamped now) with
    | .stored row => return some row
    | .vanished => return none
    | .outrun =>
      match ← load base.id with
      | none => abandon base.id
      | some fresh =>
        if fresh.sameProgress base then persistWithin t tries fresh else abandon base.id

/-- Stores a transition. There is no row if the execution is someone else's now. -/
def persist (base : Execution) (t : Transition) : Action (Option Execution) :=
  persistWithin t writeAttempts base

/-- Reports an execution that became terminal. -/
def report (row : Execution) : Action Unit := do
  if row.status = .failed then
    ask (.alert ⟨row.id, row.sagaType, row.status.name, row.lastError⟩)
  log (.info "saga finished"
    [.execution row.id, .text "saga_type" row.sagaType, .text "status" row.status.name,
      .int "step_index" row.stepIndex, .text "failed_step" row.failedStep,
      .text "failure_reason" row.failureReason])
  ask (.completed row)

/-- What an advance came to, once its transition was stored. -/
def finish (written : Option Execution) (onSuccess : Advanced) : Action Advanced :=
  match written with
  | none => return .abandoned
  | some row =>
    if row.status.isTerminal then do
      report row
      return .terminal
    else return onSuccess

/-- Stores a transition and says what the advance came to. -/
def settle (base : Execution) (t : Transition) (onSuccess : Advanced := .progressed) :
    Action Advanced := do
  finish (← persist base t) onSuccess

/-! ## Step calls -/

/-- The line about a call that returned. -/
def returnedLine (phase : Phase) : String :=
  match phase with
  | .execute => "execute returned"
  | .compensate => "compensate returned"

/-- Calls a step of a definition under a span. The span says what the row says, whose
type may have become another one since the definition was looked up. -/
def callStep (d : SagaDefinition) (row : Execution) (call : StepCall) : Action StepResult := do
  let span ← ask (.openSpan
    { phase := call.phase, executionId := row.id, sagaType := row.sagaType, step := call.step
      index := row.stepIndex, attempt := row.retryCount + 1 })
  let result := (← ask (.call d.sagaType call)).result
  let label := result.outcome.label
  if !result.outcome.isOk then
    ask (.failSpan span label result.message)
  log (.debug (returnedLine call.phase)
    [.execution row.id, .text "step" call.step, .text "outcome" label])
  ask (.closeSpan span)
  return result

/-- Calls the step of an execution; a malformed context is a rejection without a
call. -/
def invoke (d : SagaDefinition) (row : Execution) (step : String) (phase : Phase) :
    Action StepResult :=
  match Context.ofBlob row.context with
  | .error error => return .terminal error.message
  | .ok context =>
    let rejected := match phase with
      | .execute => false
      | .compensate => context.isRejected row.stepIndex
    callStep d row
      { phase, step, executionId := row.id, index := row.stepIndex, context, rejected }

/-- The number of attempts after one more of them failed. -/
def attemptsAfter (row : Execution) : Nat := wrapWord32 (row.retryCount + 1)

/-- Stores a failed attempt that will be repeated. -/
def retryLater (d : SagaDefinition) (row : Execution) (step message line : String) :
    Action Advanced := do
  let attempts := attemptsAfter row
  log (.warn line
    [.execution row.id, .text "step" step, .int "attempt" attempts, .text "error" message])
  settle row (.attemptFailed attempts message) (.retryAfter (d.retry.backoffAfter attempts))

/-- Calls the step at the index and stores what follows from its result. -/
def executeStep (d : SagaDefinition) (row : Execution) : Action Advanced := do
  let step ← Program.ofExcept (stepName d row.stepIndex)
  let result ← invoke d row step .execute
  match result.outcome with
  | .ok => settle row (.stepDone result.fragment)
  | .retryable =>
    let attempts := attemptsAfter row
    if d.retry.exhausted attempts then do
      log (.warn "step retry budget exhausted, compensating"
        [.execution row.id, .text "step" step, .int "attempts" attempts])
      settle row (.budgetSpent step attempts result.message)
    else retryLater d row step result.message "step attempt failed, will retry"
  | .terminal => do
    log (.warn "step failed terminally, compensating"
      [.execution row.id, .text "step" step, .text "reason" result.message])
    settle row (.rejected step result.message)
  | .unclassified _ => return .abandoned

/-- One move of the forward phase. -/
def stepForward (d : SagaDefinition) (row : Execution) : Action Advanced :=
  if row.cancelRequested then do
    log (.info "saga cancel observed" [.execution row.id, .int "completed_steps" row.stepIndex])
    settle row .cancelled
  else if row.totalSteps ≤ row.stepIndex then settle row .completed
  else executeStep d row

/-- Why the undo of a step is given up. -/
def giveUpReason (step : String) (attempts : Nat) (result : StepResult) : String :=
  match result.outcome with
  | .terminal => "compensation of " ++ step ++ " failed terminally: " ++ result.message
  | _ =>
    "compensation of " ++ step ++ " exhausted " ++ toString attempts ++ " attempts: " ++
      result.message

/-- Calls the undo of the step at the index and stores what follows from its result. -/
def undoStep (d : SagaDefinition) (row : Execution) : Action Advanced := do
  let step ← Program.ofExcept (stepName d row.stepIndex)
  let result ← invoke d row step .compensate
  let attempts := attemptsAfter row
  if result.outcome = .ok then settle row (.stepUndone result.fragment)
  else if result.outcome = .retryable ∧ !d.retry.exhausted attempts then
    retryLater d row step result.message "compensation attempt failed, will retry"
  else do
    let reason := giveUpReason step attempts result
    log (.err "compensation gave up"
      [.execution row.id, .text "step" step, .text "reason" reason])
    settle row (.gaveUp attempts reason)

/-- One move of the compensation. -/
def stepBackward (d : SagaDefinition) (row : Execution) : Action Advanced :=
  if row.stepIndex < 0 then settle row .undoneAll else undoStep d row

/-! ## Operations -/

/-- One move of an execution whose lease is held. -/
def advanceHeld (d : SagaDefinition) (executionId : String) : Action Advanced := do
  let row ← getStatus executionId
  match row.status with
  | .started => settle row .begun
  | .inProgress => stepForward d row
  | .compensating => stepBackward d row
  | _ => return .terminal

/-- One move of an execution. -/
def advance (e : Engine) (executionId : String) : Action Advanced := do
  let seen ← getStatus executionId
  if seen.status.isTerminal then return .terminal
  else
    let d ← Program.ofExcept (e.definitionOf seen)
    match ← ask (.acquire executionId) with
    | none =>
      log (.debug "execution leased by another owner" [.execution executionId])
      return .abandoned
    | some lease => (advanceHeld d executionId).ensuring (ask (.release lease))

def newRow (executionId : String) (d : SagaDefinition) (sagaType : String) (context : Context)
    (now : Nat) : Execution where
  id := executionId
  sagaType := sagaType
  totalSteps := d.stepCount
  context := context.toBlob
  createdAt := now
  updatedAt := now
  version := 1

/-- Accepts a new execution and hands it to whoever drives executions. -/
def start (e : Engine) (sagaType : String) (context : Context) : Action String := do
  let d ← Program.ofExcept (e.definition sagaType)
  let executionId ← ask .freshId
  let now ← ask .now
  let row := newRow executionId d sagaType context now
  withTransaction fun tx => do
    match ← answered (← ask (.insert tx row)) with
    | .error refusal => .failed (.declined .insert executionId refusal)
    | .ok _ => commit tx
  log (.info "saga started"
    [.execution executionId, .text "saga_type" sagaType, .int "total_steps" row.totalSteps])
  let _ ← ask (.dispatch executionId)
  return executionId

/-- Tries once to record a cancel request for an execution on its row; says whether it
is recorded. -/
def recordCancel (executionId : String) (row : Execution) : Action Bool := do
  let now ← ask .now
  withTransaction fun tx => do
    match ← answered (← ask (.update tx { row with cancelRequested := true, updatedAt := now }
        row.version)) with
    | .ok _ =>
      commit tx
      log (.info "saga cancel requested"
        [.execution executionId, .int "step_index" row.stepIndex])
      return true
    | .error refusal =>
      if refusal.code = .conflict then return false
      else .failed (.declined .cancel executionId refusal)

/-- Records a cancel request, within a number of tries. -/
def cancelWithin (executionId : String) : Nat → Action Unit
  | 0 => .failed (.cancelContended executionId)
  | tries + 1 => do
    let row ← getStatus executionId
    if row.status ≠ .started ∧ row.status ≠ .inProgress then
      .failed (.notCancellable executionId row.status)
    else if row.cancelRequested then return ()
    else if ← recordCancel executionId row then return ()
    else cancelWithin executionId tries

/-- Records a cancel request; it takes effect between two steps. -/
def cancel (executionId : String) : Action Unit := cancelWithin executionId writeAttempts

/-- Advances an execution until it is terminal or someone else's, a bounded number
of times. -/
def driveWithin (e : Engine) (executionId : String) : Nat → Action Unit
  | 0 => .failed (.endless executionId)
  | moves + 1 => do
    match ← e.advance executionId with
    | .progressed => driveWithin e executionId moves
    | .retryAfter delay => do
      ask (.sleep delay)
      driveWithin e executionId moves
    | _ => return ()

/-- Drives an execution and answers with its row. -/
def drive (e : Engine) (executionId : String) : Action Execution := do
  driveWithin e executionId e.patience
  getStatus executionId

/-- Takes an execution up again from its stored row. -/
def resume (e : Engine) (executionId : String) : Action Unit := do
  let row ← getStatus executionId
  if row.status.isTerminal then
    log (.debug "resume skipped, execution is terminal"
      [.execution executionId, .text "status" row.status.name])
  else
    let _ ← Program.ofExcept (e.definitionOf row)
    log (.info "saga resumed"
      [.execution executionId, .text "status" row.status.name, .int "step_index" row.stepIndex])
    if ← ask (.dispatch executionId) then return ()
    else
      let _ ← e.drive executionId
      return ()

end Engine

end SagaEngine
