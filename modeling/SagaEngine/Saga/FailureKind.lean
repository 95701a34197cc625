/-!
# Kinds of failure

What a caller may conclude from a failed operation, whatever its wording.
-/

namespace SagaEngine

/-- The kinds of failure that operations report. -/
inductive FailureKind where
  | notFound
  | alreadyExists
  | invalidState
  | conflict
  | definition
  | invalidArgument
  | outOfRange
  | runtime
  deriving DecidableEq, Repr, Inhabited

end SagaEngine
