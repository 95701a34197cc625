import SagaEngine.Proofs.Conduct
/-!
# What a decision depends on

The row that an owner has read and the replies to its calls leave one decision open,
and a transition changes a row alike whatever its bookkeeping says. Main statements:
`Decides.det` and `Transition.next_noted`.
-/

namespace SagaEngine

/-- A row with other bookkeeping: no transition looks at these fields. -/
def Execution.noted (row : Execution) (asked : Bool) (updatedAt completedAt version : Nat) :
    Execution :=
  { row with cancelRequested := asked, updatedAt, completedAt, version }

section

variable {d : SagaDefinition} {row changed : Execution} {made made' : List CallMade}
  {t t' : Transition} {call : StepCall} {asked : Bool} {updatedAt completedAt version : Nat}

theorem AsksFor.exists_made (asks : AsksFor d row call) (decides : Decides d row made t) :
    ∃ c ∈ made, c.call = call := by
  cases asks with
  | execute =>
    cases decides <;> simp_all
    omega
  | compensate =>
    cases decides <;> simp_all
    omega

theorem Decides.eq_singleton {c : CallMade} (decides : Decides d row made t) (inside : c ∈ made) :
    made = [c] := by
  cases decides with
  | execute | compensate =>
    cases List.mem_singleton.1 inside
    rfl
  | _ => cases inside

/-- Two decisions on one row are the same if the calls that they share had the same replies. -/
theorem Decides.det (decides : Decides d row made t) (other : Decides d row made' t')
    (alike : ∀ c ∈ made, ∀ c' ∈ made', c.call = c'.call → c.reply = c'.reply) :
    made = made' ∧ t = t' := by
  -- Status, cancel request and index leave one rule for both.
  cases decides <;> cases other <;> simp_all <;> omega

/-- A row that says the same to an owner asks for the same call. -/
theorem AsksFor.alike {row' : Execution} (asks : AsksFor d row call) (id : row'.id = row.id)
    (total : row'.totalSteps = row.totalSteps) (progress : row'.progress = row.progress)
    (requested : row'.cancelRequested = row.cancelRequested) : AsksFor d row' call := by
  simp only [Execution.progress, Execution.Progress.mk.injEq] at progress
  obtain ⟨status, index, -, blob⟩ := progress
  have planned (phase : Phase) (step : String) (context : Context) :
      plannedCall row phase step context = plannedCall row' phase step context := by
    simp only [plannedCall, id, index]
  cases asks with
  | execute running unasked isStep step named context decoded =>
    rw [planned]
    exact .execute (status.trans running) (requested.trans unasked) (by omega) step (index ▸ named)
      context (blob ▸ decoded)
  | compensate compensating isStep step named context decoded =>
    rw [planned]
    exact .compensate (status.trans compensating) (by omega) step (index ▸ named) context
      (blob ▸ decoded)

/-- A row that says the same to an owner leads to the same decision. -/
theorem Decides.alike {row' : Execution} (decides : Decides d row made t) (id : row'.id = row.id)
    (total : row'.totalSteps = row.totalSteps) (progress : row'.progress = row.progress)
    (requested : row'.cancelRequested = row.cancelRequested) : Decides d row' made t := by
  simp only [Execution.progress, Execution.Progress.mk.injEq] at progress
  obtain ⟨status, index, retries, blob⟩ := progress
  have planned (phase : Phase) (step : String) (context : Context) :
      plannedCall row phase step context = plannedCall row' phase step context := by
    simp only [plannedCall, id, index]
  have attempts : Engine.attemptsAfter row = Engine.attemptsAfter row' := by
    simp only [Engine.attemptsAfter, retries]
  cases decides with
  | begin started => exact .begin (status.trans started)
  | cancel running asked => exact .cancel (status.trans running) (requested.trans asked)
  | complete running unasked noStep =>
    exact .complete (status.trans running) (requested.trans unasked) (by omega)
  | execute running unasked isStep step named context decoded reply _ follows =>
    have after : afterExecute? d row step reply.result = afterExecute? d row' step reply.result := by
      simp only [afterExecute?, attempts]
    rw [planned]
    exact .execute (status.trans running) (requested.trans unasked) (by omega) step (index ▸ named)
      context (blob ▸ decoded) reply _ (after ▸ follows)
  | finish compensating noStep => exact .finish (status.trans compensating) (by omega)
  | compensate compensating isStep step named context decoded reply =>
    have after : afterCompensate d row step reply.result =
        afterCompensate d row' step reply.result := by
      simp only [afterCompensate, attempts]
    rw [planned, after]
    exact .compensate (status.trans compensating) (by omega) step (index ▸ named) context
      (blob ▸ decoded) reply

/-- Times say nothing to an owner. -/
theorem AsksFor.noted (asks : AsksFor d row call) :
    AsksFor d (row.noted row.cancelRequested updatedAt completedAt version) call :=
  asks.alike rfl rfl rfl rfl

theorem Decides.noted (decides : Decides d row made t) :
    Decides d (row.noted row.cancelRequested updatedAt completedAt version) made t :=
  decides.alike rfl rfl rfl rfl

theorem Transition.apply_noted (t : Transition) (row : Execution) :
    t.apply (row.noted asked updatedAt completedAt version) =
      (t.apply row).map (·.noted asked updatedAt completedAt version) := by
  cases t with
  | stepDone fragment | stepUndone fragment =>
    simp only [apply, Execution.noted]
    cases mergedBlob row.context fragment <;> rfl
  | _ => rfl

theorem Transition.next_noted (t : Transition) (row : Execution) :
    t.next (row.noted asked updatedAt completedAt version) =
      (t.next row).map (·.noted asked updatedAt completedAt version) := by
  rw [next, next, apply_noted]
  cases t.apply row with
  | error failure => rfl
  | ok changed =>
    simp only [Except.map]
    show (if changed.status ≠ row.status ∧ !row.status.canTransition changed.status then
        .error (.illegalTransition row.id row.status changed.status)
      else .ok (changed.noted asked updatedAt completedAt version) : Except Failure Execution) = _
    split <;> rfl

end

end SagaEngine
