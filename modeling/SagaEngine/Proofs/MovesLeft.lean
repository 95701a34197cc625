import SagaEngine.Proofs.Lineage
/-!
# How many advances an execution has left

A stored row may say anything: its index may be past its steps, its number of failed attempts may
be about to wrap around, its context may be unreadable. What is stored next is a choice that
depends on the row and on how a call came back, and every choice leaves fewer advances than there
were before, or none. The steps to come and the steps to take back each weigh a whole budget of
attempts, and the attempts on the step at the index weigh one each. Main statements:
`Position.movesLeft_le` and `Chooses.movesLeft_lt`.
-/

namespace SagaEngine

/-- The transition that an owner stores on a row, whatever the row says. -/
inductive Chooses (d : SagaDefinition) (row : Execution) : Transition → Prop
  | begin (status : row.status = .started) : Chooses d row .begun
  | cancel (status : row.status = .inProgress) (requested : row.cancelRequested = true) :
      Chooses d row .cancelled
  | complete (status : row.status = .inProgress) (requested : row.cancelRequested = false)
      (noStep : row.totalSteps ≤ row.stepIndex) : Chooses d row .completed
  | execute (status : row.status = .inProgress) (requested : row.cancelRequested = false)
      (isStep : row.stepIndex < row.totalSteps) (step : String)
      (named : Engine.stepName d row.stepIndex = .ok step) (result : StepResult) (t : Transition)
      (follows : afterExecute? d row step result = some t) : Chooses d row t
  | finish (status : row.status = .compensating) (noStep : row.stepIndex < 0) :
      Chooses d row .undoneAll
  | compensate (status : row.status = .compensating) (isStep : 0 ≤ row.stepIndex) (step : String)
      (named : Engine.stepName d row.stepIndex = .ok step) (result : StepResult) :
      Chooses d row (afterCompensate d row step result)

/-- The number of attempts on one call that are left, if each of them fails. The count of those
that failed may wrap around once. -/
def attemptsLeft (budget retries : Nat) : Nat := 1 + (budget - wrapWord32 (retries + 1))

section

variable {budget retries : Nat}

theorem attemptsLeft_pos (budget retries : Nat) : 0 < attemptsLeft budget retries := by
  unfold attemptsLeft
  omega

theorem attemptsLeft_le (budget retries : Nat) : attemptsLeft budget retries ≤ 1 + budget := by
  unfold attemptsLeft
  omega

-- the bound is met just before the count wraps around
example : attemptsLeft 3 0xFFFFFFFF = 4 ∧ attemptsLeft 3 0 = 3 := by decide

theorem attemptsLeft_zero (positive : 0 < budget) : attemptsLeft budget 0 = budget := by
  have one : wrapWord32 ((0 : Nat) + 1) = 1 := rfl
  rw [attemptsLeft, one]
  omega

theorem attemptsLeft_lt (fits : budget < 0x100000000) (left : wrapWord32 (retries + 1) < budget) :
    attemptsLeft budget (wrapWord32 (retries + 1)) < attemptsLeft budget retries := by
  have next : wrapWord32 (wrapWord32 (retries + 1) + 1) = wrapWord32 (retries + 1) + 1 :=
    wrapWord32_of_inRange (n := wrapWord32 (retries + 1) + 1) (by omega)
  rw [attemptsLeft, attemptsLeft, next]
  omega

end

namespace Position

/-- The index is that of a step. -/
def AtStep (steps : Nat) (p : Position) : Prop := 0 ≤ p.index ∧ p.index < steps

instance (steps : Nat) (p : Position) : Decidable (p.AtStep steps) :=
  inferInstanceAs (Decidable (_ ∧ _))

/-- The number of advances from a position on, if every call takes up its whole budget. -/
def movesLeft (steps budget : Nat) (p : Position) : Nat :=
  match p.status with
  | .started => 2 + 2 * steps * budget
  | .inProgress =>
    if p.AtStep steps then
      attemptsLeft budget p.retries + (steps - 1 - p.index.toNat) * budget + steps * budget
    else 1 + steps * budget
  | .compensating =>
    if p.AtStep steps then attemptsLeft budget p.retries + p.index.toNat * budget else 1
  | _ => 1

variable {steps budget retries : Nat} {index : Int} {p : Position}

/-- The steps up to and with one of them weigh no more than all of them. -/
theorem weight_le (budget : Nat) {n : Nat} (below : n < steps) : n * budget + budget ≤ steps * budget := by
  rw [← Nat.succ_mul]
  exact Nat.mul_le_mul_right budget below

theorem movesLeft_pos (steps budget : Nat) (p : Position) : 0 < p.movesLeft steps budget := by
  have attempts := attemptsLeft_pos budget p.retries
  unfold movesLeft
  split
  · omega
  · split <;> omega
  · split <;> omega
  · omega

theorem movesLeft_inProgress_le (steps budget : Nat) (status : p.status = .inProgress) :
    p.movesLeft steps budget ≤ 1 + 2 * steps * budget := by
  have attempts := attemptsLeft_le budget p.retries
  have twice : 2 * steps * budget = steps * budget + steps * budget := by
    rw [Nat.mul_assoc, Nat.two_mul]
  simp only [movesLeft, status]
  split
  · rename_i atStep
    obtain ⟨low, high⟩ := atStep
    have := weight_le budget (show steps - 1 - p.index.toNat < steps by omega)
    omega
  · omega

theorem lt_movesLeft_inProgress (status : p.status = .inProgress) :
    steps * budget < p.movesLeft steps budget := by
  have attempts := attemptsLeft_pos budget p.retries
  simp only [movesLeft, status]
  split <;> omega

theorem movesLeft_le (steps budget : Nat) (p : Position) :
    p.movesLeft steps budget ≤ 2 + 2 * steps * budget := by
  have attempts := attemptsLeft_le budget p.retries
  cases status : p.status with
  | started => simp only [movesLeft, status, Nat.le_refl]
  | inProgress =>
    have := movesLeft_inProgress_le steps budget status
    omega
  | compensating =>
    have twice : 2 * steps * budget = steps * budget + steps * budget := by
      rw [Nat.mul_assoc, Nat.two_mul]
    simp only [movesLeft, status]
    split
    · rename_i atStep
      obtain ⟨low, high⟩ := atStep
      have := weight_le budget (show p.index.toNat < steps by omega)
      omega
    · omega
  | compensated | completed | failed =>
    simp only [movesLeft, status]
    omega

/-- Turning back takes less than going on, wherever it starts. -/
theorem movesLeft_turned (index : Int) (steps_pos : 0 < steps) (positive : 0 < budget) :
    movesLeft steps budget ⟨.compensating, index, 0⟩ ≤ steps * budget := by
  simp only [movesLeft]
  split
  · rename_i atStep
    obtain ⟨low, high⟩ := atStep
    rw [attemptsLeft_zero positive, Nat.add_comm]
    exact weight_le budget (by simp only at low high; omega)
  · exact Nat.mul_pos steps_pos positive

theorem movesLeft_repeated (phase : Phase) (fits : budget < 0x100000000)
    (left : wrapWord32 (retries + 1) < budget)
    (low : 0 ≤ index) (high : index < steps) :
    movesLeft steps budget ⟨phase.status, index, wrapWord32 (retries + 1)⟩ <
      movesLeft steps budget ⟨phase.status, index, retries⟩ := by
  have fewer := attemptsLeft_lt fits left
  cases phase with
  | execute | compensate =>
    simp only [movesLeft, Phase.status, AtStep, low, high, and_self, if_true]
    omega

theorem movesLeft_stepped (positive : 0 < budget) (low : 0 ≤ index) (more : index + 1 < steps) :
    movesLeft steps budget ⟨.inProgress, index + 1, 0⟩ <
      movesLeft steps budget ⟨.inProgress, index, retries⟩ := by
  have attempts := attemptsLeft_pos budget retries
  have here : 0 ≤ index ∧ index < steps := ⟨low, by omega⟩
  have there : 0 ≤ index + 1 ∧ index + 1 < steps := ⟨by omega, more⟩
  have one : steps - 1 - index.toNat = steps - 1 - (index + 1).toNat + 1 := by omega
  simp only [movesLeft, AtStep, here, there, and_self, if_true, attemptsLeft_zero positive]
  rw [one, Nat.succ_mul]
  omega

theorem movesLeft_undone (positive : 0 < budget) (high : index < steps) (more : 0 < index) :
    movesLeft steps budget ⟨.compensating, index - 1, 0⟩ <
      movesLeft steps budget ⟨.compensating, index, retries⟩ := by
  have attempts := attemptsLeft_pos budget retries
  have here : 0 ≤ index ∧ index < steps := ⟨by omega, high⟩
  have there : 0 ≤ index - 1 ∧ index - 1 < steps := ⟨by omega, by omega⟩
  have one : index.toNat = (index - 1).toNat + 1 := by omega
  simp only [movesLeft, AtStep, here, there, and_self, if_true, attemptsLeft_zero positive]
  rw [one, Nat.succ_mul]
  omega

end Position

section

variable {d : SagaDefinition} {row base changed : Execution} {t : Transition}

def Execution.movesLeft (d : SagaDefinition) (row : Execution) : Nat :=
  row.position.movesLeft d.stepCount d.retry.maxAttempts

/-- On a well-formed row there is a call for every choice that follows one. -/
theorem Chooses.decides (chooses : Chooses d row t) (formed : WellFormed d row) :
    ∃ made, Decides d row made t := by
  obtain ⟨values, written⟩ := formed.readable
  have decoded : Context.ofBlob row.context = .ok values := by rw [written, Context.ofBlob_toBlob]
  cases chooses with
  | begin status => exact ⟨[], .begin status⟩
  | cancel status requested => exact ⟨[], .cancel status requested⟩
  | complete status requested noStep => exact ⟨[], .complete status requested noStep⟩
  | execute status requested isStep step named result t follows =>
    exact ⟨_, .execute status requested isStep step named values decoded (.returned result) t
      follows⟩
  | finish status noStep => exact ⟨[], .finish status noStep⟩
  | compensate status isStep step named result =>
    exact ⟨_, .compensate status isStep step named values decoded (.returned result)⟩

theorem inRange_of_stepName {index : Int} {step : String}
    (named : Engine.stepName d index = .ok step) : 0 ≤ index ∧ index < d.stepCount := by
  apply (d.stepAt?_isSome_iff index).1
  unfold Engine.stepName at named
  split at named
  · rename_i found
    rw [found]
    rfl
  · cases named

theorem position_of_stepDone {fragment : Context}
    (applied : (Transition.stepDone fragment).apply row = .ok changed) :
    changed.position =
      ⟨if wrapSigned32 (row.stepIndex + 1) = row.totalSteps then .completed else .inProgress,
        wrapSigned32 (row.stepIndex + 1), 0⟩ := by
  simp only [Transition.apply] at applied
  cases merged : Transition.mergedBlob row.context fragment <;> rw [merged] at applied <;>
    cases applied
  rfl

theorem position_of_stepUndone {fragment : Context}
    (applied : (Transition.stepUndone fragment).apply row = .ok changed) :
    changed.position =
      ⟨if wrapSigned32 (row.stepIndex - 1) < 0 then .compensated else .compensating,
        wrapSigned32 (row.stepIndex - 1), 0⟩ := by
  simp only [Transition.apply] at applied
  cases merged : Transition.mergedBlob row.context fragment <;> rw [merged] at applied <;>
    cases applied
  rfl

theorem movesLeft_of_stepDone (fits : d.Fits) (status : row.status = .inProgress)
    (total : row.totalSteps = d.stepCount) (low : 0 ≤ row.stepIndex)
    (high : row.stepIndex < d.stepCount) {fragment : Context}
    (applied : (Transition.stepDone fragment).apply row = .ok changed)
    (unfinished : changed.status.isTerminal = false) :
    changed.movesLeft d < row.movesLeft d := by
  have position := position_of_stepDone applied
  have room := fits.steps
  have up : wrapSigned32 (row.stepIndex + 1) = row.stepIndex + 1 :=
    wrapSigned32_of_inRange (by omega) (by omega)
  rw [up, total] at position
  by_cases last : row.stepIndex + 1 = d.stepCount
  · rw [if_pos last] at position
    have finished : changed.status = .completed := congrArg Position.status position
    rw [finished] at unfinished
    cases unfinished
  · rw [if_neg last] at position
    rw [Execution.movesLeft, Execution.movesLeft, position, Execution.position, status]
    exact Position.movesLeft_stepped d.attempts_pos low (by omega)

theorem movesLeft_of_stepUndone (fits : d.Fits) (status : row.status = .compensating)
    (low : 0 ≤ row.stepIndex) (high : row.stepIndex < d.stepCount) {fragment : Context}
    (applied : (Transition.stepUndone fragment).apply row = .ok changed)
    (unfinished : changed.status.isTerminal = false) :
    changed.movesLeft d < row.movesLeft d := by
  have position := position_of_stepUndone applied
  have room := fits.steps
  have down : wrapSigned32 (row.stepIndex - 1) = row.stepIndex - 1 :=
    wrapSigned32_of_inRange (by omega) (by omega)
  rw [down] at position
  by_cases last : row.stepIndex - 1 < 0
  · rw [if_pos last] at position
    have finished : changed.status = .compensated := congrArg Position.status position
    rw [finished] at unfinished
    cases unfinished
  · rw [if_neg last] at position
    rw [Execution.movesLeft, Execution.movesLeft, position, Execution.position, status]
    exact Position.movesLeft_undone d.attempts_pos high (by omega)

/-- A change of the row that was read has the index and the count of that row. -/
theorem Chooses.movesLeft_lt (chooses : Chooses d base t) (fits : d.Fits)
    (same : base.progress = row.progress) (total : row.totalSteps = d.stepCount)
    (next : t.next row = .ok changed) (unfinished : changed.status.isTerminal = false) :
    changed.movesLeft d < base.movesLeft d := by
  simp only [Execution.progress, Execution.Progress.mk.injEq] at same
  obtain ⟨status', index', retries', -⟩ := same
  have applied := apply_of_next next
  have level : base.movesLeft d = row.movesLeft d := by
    simp only [Execution.movesLeft, Execution.position, status', index', retries']
  have turned {index : Int} (position : changed.position = ⟨.compensating, index, 0⟩)
      (status : base.status = .inProgress) : changed.movesLeft d < base.movesLeft d := by
    have back := Position.movesLeft_turned index d.stepCount_pos d.attempts_pos
    have ahead : d.stepCount * d.retry.maxAttempts < base.movesLeft d :=
      Position.lt_movesLeft_inProgress status
    rw [Execution.movesLeft, position]
    omega
  have repeated (phase : Phase) {step message : String}
      (named : Engine.stepName d base.stepIndex = .ok step)
      (status : base.status = phase.status) (left : Engine.attemptsAfter base < d.retry.maxAttempts)
      (applied : (Transition.attemptFailed (Engine.attemptsAfter base) message).apply row =
        .ok changed) : changed.movesLeft d < base.movesLeft d := by
    obtain ⟨low, high⟩ := inRange_of_stepName named
    have fewer := Position.movesLeft_repeated phase fits.attempts left low high
    cases applied
    simp only [Execution.movesLeft, Execution.position, ← status', ← index', status]
    exact fewer
  cases chooses with
  | begin status =>
    cases applied
    have less := Position.movesLeft_inProgress_le d.stepCount d.retry.maxAttempts
      (p := ⟨.inProgress, row.stepIndex, row.retryCount⟩) rfl
    simp only [Execution.movesLeft, Execution.position, status]
    simp only [Position.movesLeft] at less ⊢
    omega
  | cancel status requested =>
    cases applied
    exact turned rfl status
  | complete | finish =>
    cases applied
    cases unfinished
  | execute status requested isStep step named result t follows =>
    obtain ⟨low, high⟩ := inRange_of_stepName named
    unfold afterExecute? at follows
    dsimp only at follows
    split at follows
    · cases follows
      rw [level]
      exact movesLeft_of_stepDone fits (status' ▸ status) total (index' ▸ low) (index' ▸ high)
        applied unfinished
    · split at follows
      · cases follows
        cases applied
        exact turned rfl status
      · cases follows
        rename_i left
        refine repeated .execute named status ?_ applied
        simpa [RetryPolicy.exhausted] using left
    · cases follows
      cases applied
      exact turned rfl status
    · cases follows
  | compensate status isStep step named result =>
    obtain ⟨low, high⟩ := inRange_of_stepName named
    unfold afterCompensate at applied
    dsimp only at applied
    split at applied
    · rw [level]
      exact movesLeft_of_stepUndone fits (status' ▸ status) (index' ▸ low) (index' ▸ high) applied
        unfinished
    · split at applied
      · rename_i again
        refine repeated .compensate named status ?_ applied
        simpa [RetryPolicy.exhausted] using again.2
      · cases applied
        cases unfinished

end

end SagaEngine
