import SagaEngine.Saga.Execution
import SagaEngine.Saga.Step
/-!
# Positions and moves

Where an execution stands is its status, the index of its step and the attempts
that failed there. A move leads from one position to the next and makes at most
one call. Every move keeps the position in place and raises its rank, so that a
sequence of moves never returns to a position it left. Main statements:
`Move.inPlace` and `Move.rank_lt`.
-/

namespace SagaEngine

/-- Where an execution stands. -/
structure Position where
  status : Status
  index : Int
  retries : Nat
  deriving DecidableEq, Repr

def Execution.position (row : Execution) : Position := ⟨row.status, row.stepIndex, row.retryCount⟩

/-- A call as the reference sees it: which step was called in which direction, and how
the call ended. -/
structure CallMark where
  phase : Phase
  index : Int
  outcome : Outcome
  deriving DecidableEq, Repr

/-- The status in which a direction is called. -/
def Phase.status : Phase → Status
  | execute => .inProgress
  | compensate => .compensating

/-- The moves of an execution with `steps` steps and `budget` attempts for each call. Only a
move that saw a cancel request turns back without a call. -/
inductive Move (steps budget : Nat) (cancelSeen : Bool) : Position → List CallMark → Position → Prop
  | begun (index : Int) (retries : Nat) :
      Move steps budget cancelSeen ⟨.started, index, retries⟩ [] ⟨.inProgress, index, retries⟩
  | cancelled (index : Int) (retries : Nat) (seen : cancelSeen = true) :
      Move steps budget cancelSeen ⟨.inProgress, index, retries⟩ [] ⟨.compensating, index - 1, 0⟩
  | stepped (index : Int) (retries : Nat) (more : index + 1 < steps) :
      Move steps budget cancelSeen ⟨.inProgress, index, retries⟩ [⟨.execute, index, .ok⟩]
        ⟨.inProgress, index + 1, 0⟩
  | completed (index : Int) (retries : Nat) (last : index + 1 = steps) :
      Move steps budget cancelSeen ⟨.inProgress, index, retries⟩ [⟨.execute, index, .ok⟩]
        ⟨.completed, index + 1, 0⟩
  | repeated (phase : Phase) (index : Int) (retries : Nat) (left : retries + 1 < budget) :
      Move steps budget cancelSeen ⟨phase.status, index, retries⟩ [⟨phase, index, .retryable⟩]
        ⟨phase.status, index, retries + 1⟩
  | turned (index : Int) (retries : Nat) (outcome : Outcome)
      (final : outcome = .terminal ∨ outcome = .retryable ∧ budget ≤ retries + 1) :
      Move steps budget cancelSeen ⟨.inProgress, index, retries⟩ [⟨.execute, index, outcome⟩]
        ⟨.compensating, index, 0⟩
  | undone (index : Int) (retries : Nat) (more : 0 < index) :
      Move steps budget cancelSeen ⟨.compensating, index, retries⟩ [⟨.compensate, index, .ok⟩]
        ⟨.compensating, index - 1, 0⟩
  | compensated (index : Int) (retries : Nat) (last : index = 0) :
      Move steps budget cancelSeen ⟨.compensating, index, retries⟩ [⟨.compensate, index, .ok⟩]
        ⟨.compensated, index - 1, 0⟩
  | nothingLeft (index : Int) (retries : Nat) (below : index < 0) :
      Move steps budget cancelSeen ⟨.compensating, index, retries⟩ []
        ⟨.compensated, Execution.compensatedIndex, retries⟩
  | gaveUp (index : Int) (retries : Nat) (outcome : Outcome) (failed : outcome ≠ .ok)
      (final : outcome = .retryable → budget ≤ retries + 1) (atStep : 0 ≤ index) :
      Move steps budget cancelSeen ⟨.compensating, index, retries⟩ [⟨.compensate, index, outcome⟩]
        ⟨.failed, index, retries + 1⟩

namespace Position

variable {steps budget : Nat} {cancelSeen : Bool} {p q : Position} {made : List CallMark}

/-- Which indices and how many failed attempts a status allows. -/
def InPlace (steps budget : Nat) (p : Position) : Prop :=
  match p.status with
  | .started => p.index = 0 ∧ p.retries = 0
  | .inProgress => 0 ≤ p.index ∧ p.index < steps ∧ p.retries < budget
  | .compensating => -1 ≤ p.index ∧ p.index < steps ∧ p.retries < budget
  | .completed => p.index = steps ∧ p.retries < budget
  | .compensated => p.index = -1 ∧ p.retries < budget
  | .failed => 0 ≤ p.index ∧ p.index < steps ∧ 1 ≤ p.retries ∧ p.retries ≤ budget

/-- A number that every move raises. -/
def rank (steps budget : Nat) (p : Position) : Nat :=
  match p.status with
  | .started => 0
  | .inProgress => 1 + p.index.toNat * budget + p.retries
  | .compensating => 1 + steps * budget + (steps - 1 - p.index).toNat * budget + p.retries
  | _ => 1 + steps * budget + (steps + 1) * budget

/-- A count of whole blocks and a rest is less than one block more. -/
theorem block_lt {m : Nat} {index : Int} {retries : Nat} (notNegative : 0 ≤ index)
    (inRange : index < m) (left : retries < budget) :
    index.toNat * budget + retries < m * budget := by
  have whole : (index.toNat + 1) * budget ≤ m * budget :=
    Nat.mul_le_mul_right budget (by omega)
  rw [Nat.succ_mul] at whole
  omega

theorem forward_lt {index : Int} {retries : Nat}
    (place : InPlace steps budget ⟨.inProgress, index, retries⟩) :
    index.toNat * budget + retries < steps * budget :=
  block_lt place.1 place.2.1 place.2.2

theorem rank_lt_terminal {index : Int} {retries : Nat}
    (place : InPlace steps budget ⟨.compensating, index, retries⟩) :
    rank steps budget ⟨.compensating, index, retries⟩ <
      1 + steps * budget + (steps + 1) * budget := by
  obtain ⟨low, high, left⟩ := place
  have low : -1 ≤ index := low
  have high : index < steps := high
  have left : retries < budget := left
  have block : ((steps : Int) - 1 - index).toNat * budget + retries < (steps + 1) * budget :=
    block_lt (by omega) (by omega) left
  simp only [rank]
  omega

theorem rank_le (p : Position) (place : p.InPlace steps budget) :
    p.rank steps budget ≤ 1 + steps * budget + (steps + 1) * budget := by
  obtain ⟨status, index, retries⟩ := p
  cases status with
  | started => simp [rank]
  | inProgress =>
    have block := forward_lt place
    simp only [rank]
    omega
  | compensating => exact Nat.le_of_lt (rank_lt_terminal place)
  | _ => exact Nat.le_refl _

end Position

namespace Move

variable {steps budget : Nat} {cancelSeen : Bool} {p q : Position} {made : List CallMark}

theorem canTransition (move : Move steps budget cancelSeen p made q) :
    p.status.canTransition q.status = true := by
  cases move with
  | repeated phase => cases phase <;> rfl
  | _ => rfl

theorem inPlace (move : Move steps budget cancelSeen p made q) (oneStep : 0 < steps)
    (oneAttempt : 0 < budget) (place : p.InPlace steps budget) : q.InPlace steps budget := by
  cases move with
  | repeated phase index retries left =>
    cases phase <;> simp only [Position.InPlace, Phase.status] at place ⊢ <;> omega
  | nothingLeft index retries below => exact ⟨rfl, place.2.2⟩
  | _ =>
    simp only [Position.InPlace] at place ⊢
    omega

theorem not_isTerminal (move : Move steps budget cancelSeen p made q) :
    p.status.isTerminal = false := by
  cases move with
  | repeated phase => cases phase <;> rfl
  | _ => rfl

/-- Every move raises the rank. -/
theorem rank_lt (move : Move steps budget cancelSeen p made q) (place : p.InPlace steps budget) :
    p.rank steps budget < q.rank steps budget := by
  cases move with
  | begun index retries => simp only [Position.rank]; omega
  | cancelled index retries =>
    have below := Position.forward_lt place
    simp only [Position.rank]
    omega
  | stepped index retries =>
    obtain ⟨notNegative, _, left⟩ := place
    have notNegative : 0 ≤ index := notNegative
    have up : (index + 1).toNat = index.toNat + 1 := by omega
    have left : retries < budget := left
    simp only [Position.rank, up, Nat.succ_mul]
    omega
  | completed index retries =>
    have below := Position.forward_lt place
    simp only [Position.rank]
    omega
  | repeated phase index retries =>
    cases phase <;> simp only [Position.rank, Phase.status] <;> omega
  | turned index retries =>
    have below := Position.forward_lt place
    simp only [Position.rank]
    omega
  | undone index retries more =>
    obtain ⟨_, inRange, left⟩ := place
    have inRange : index < steps := inRange
    have left : retries < budget := left
    have up : ((steps : Int) - 1 - (index - 1)).toNat = ((steps : Int) - 1 - index).toNat + 1 := by
      omega
    simp only [Position.rank, up, Nat.succ_mul]
    omega
  | compensated index retries => exact Position.rank_lt_terminal place
  | nothingLeft index retries => exact Position.rank_lt_terminal place
  | gaveUp index retries => exact Position.rank_lt_terminal place

end Move

end SagaEngine
