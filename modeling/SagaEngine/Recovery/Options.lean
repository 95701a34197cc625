/-!
# Options of the recovery sweep
-/

namespace SagaEngine

/-- How often a sweep runs, from which age on it resumes and from which age on it
alerts, in milliseconds, and how many executions one sweep handles. -/
structure RecoveryOptions where
  interval : Int := 30000
  staleAfter : Int := 60000
  alertAfter : Int := 1800000
  batchLimit : Nat := 100
  deriving DecidableEq, Repr, Inhabited

end SagaEngine
