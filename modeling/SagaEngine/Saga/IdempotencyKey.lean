/-!
# Idempotency keys

A forward call carries the execution's id and the step's index, an undo the same
with a suffix. Repeated attempts of one call carry one key.
-/

namespace SagaEngine

/-- The two directions in which a step is called. -/
inductive Phase where
  | execute
  | compensate
  deriving DecidableEq, Repr, Inhabited

namespace IdempotencyKey

/-- The key of a forward call. -/
def execute (executionId : String) (index : Int) : String :=
  executionId ++ "/" ++ toString index

def compensate (executionId : String) (index : Int) : String :=
  execute executionId index ++ "/undo"

/-- The key of a call in either direction. -/
def ofPhase (executionId : String) (index : Int) : Phase → String
  | .execute => execute executionId index
  | .compensate => compensate executionId index

end IdempotencyKey

end SagaEngine
