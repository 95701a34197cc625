import SagaEngine.Saga.Status
/-!
# Execution records

The stored row of one execution. The version is the token of optimistic
concurrency: every committed write raises it by one. Times are milliseconds
since the epoch; a completion time of zero means "not terminal".
-/

namespace SagaEngine

/-- The persistent state of one execution. -/
structure Execution where
  id : String := ""
  sagaType : String := ""
  status : Status := .started
  stepIndex : Int := 0
  totalSteps : Int := 0
  context : String := ""
  retryCount : Nat := 0
  lastError : String := ""
  failedStep : String := ""
  failureReason : String := ""
  cancelRequested : Bool := false
  createdAt : Nat := 0
  updatedAt : Nat := 0
  completedAt : Nat := 0
  version : Nat := 0
  deriving DecidableEq, Repr, Inhabited

namespace Execution

/-- The fields that only the owner who advances an execution writes. -/
structure Progress where
  status : Status
  stepIndex : Int
  retryCount : Nat
  context : String
  deriving DecidableEq, Repr

def progress (e : Execution) : Progress := ⟨e.status, e.stepIndex, e.retryCount, e.context⟩

/-- Whether two rows have made the same progress. -/
def sameProgress (a b : Execution) : Bool := a.progress = b.progress

/-- Older updates come first, equal ones by id. -/
def isOlder (a b : Execution) : Bool :=
  if a.updatedAt = b.updatedAt then a.id ≤ b.id else a.updatedAt < b.updatedAt

/-- The index that a fully compensated execution keeps. -/
def compensatedIndex : Int := -1

end Execution

end SagaEngine
