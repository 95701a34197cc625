import SagaEngine.Saga.Execution
import SagaEngine.Store.Result
import SagaEngine.Text.ZeroEnded
import SagaEngine.Time.Duration
/-!
# Rows of the execution table

The form in which a database keeps an execution: the status by name, text up to
its first zero code, counts as signed words of 32 bits and times and versions as
signed words of 64 bits. A version that was raised past the largest word equals
no word any more and reads as the largest one.
-/

namespace SagaEngine

structure TableRow where
  id : String
  sagaType : String
  status : String
  stepIndex : Int
  totalSteps : Int
  context : String
  retryCount : Int
  lastError : String
  failedStep : String
  failureReason : String
  cancelRequested : Bool
  createdAt : Int
  updatedAt : Int
  completedAt : Int
  version : Int
  deriving DecidableEq, Repr, Inhabited

namespace TableRow

/-- Text as it is stored. -/
def text (s : String) : String := untilZero s

/-- The largest stored word. -/
def maxWord : Int := 0x7fffffffffffffff

/-- The row of an execution. -/
def ofExecution (e : Execution) : TableRow where
  id := text e.id
  sagaType := text e.sagaType
  status := e.status.name
  stepIndex := wrapSigned32 e.stepIndex
  totalSteps := wrapSigned32 e.totalSteps
  context := text e.context
  retryCount := wrapSigned32 e.retryCount
  lastError := text e.lastError
  failedStep := text e.failedStep
  failureReason := text e.failureReason
  cancelRequested := e.cancelRequested
  createdAt := wrapSigned64 e.createdAt
  updatedAt := wrapSigned64 e.updatedAt
  completedAt := wrapSigned64 e.completedAt
  version := wrapSigned64 e.version

/-- The execution that a row holds, unless its status is no status. -/
def toExecution (r : TableRow) : Except StoreFailure Execution :=
  match Status.ofName? r.status with
  | none => .error (.unknownStatus r.id r.status)
  | some status => .ok
      { id := r.id
        sagaType := r.sagaType
        status := status
        stepIndex := r.stepIndex
        totalSteps := r.totalSteps
        context := r.context
        retryCount := wrapWord32 r.retryCount
        lastError := r.lastError
        failedStep := r.failedStep
        failureReason := r.failureReason
        cancelRequested := r.cancelRequested
        createdAt := wrapWord64 r.createdAt
        updatedAt := wrapWord64 r.updatedAt
        completedAt := wrapWord64 r.completedAt
        version := wrapWord64 (min r.version maxWord) }

/-- The row after a change: the version goes up by one, and what never changes
stays as it was stored. -/
def change (old new : TableRow) : TableRow :=
  { new with
    id := old.id
    sagaType := old.sagaType
    totalSteps := old.totalSteps
    createdAt := old.createdAt
    version := old.version + 1 }

/-- Older updates come first, equal ones by id. -/
def isOlder (a b : TableRow) : Bool :=
  if a.updatedAt = b.updatedAt then a.id ≤ b.id else a.updatedAt < b.updatedAt

/-- The first rows in order of age; a limit of 2^63 or more is none. -/
def oldest (rows : List TableRow) (limit : Nat) : List TableRow :=
  let sorted := rows.mergeSort isOlder
  if wrapSigned64 limit < 0 then sorted else sorted.take (wrapSigned64 limit).toNat

end TableRow

end SagaEngine
