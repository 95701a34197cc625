import SagaEngine.Engine.Orchestrator
import SagaEngine.Proofs.ContextBlob
import SagaEngine.Proofs.Position
/-!
# What an owner decides

An owner that has read a row makes at most one call and stores one transition.
Which ones is a relation between the row, the calls with their replies and the
transition. Every decision on a well-formed row can be stored on any row with the
same progress, and what it stores is a move. Main statement: `Decides.stores`.
-/

namespace SagaEngine

/-- A step call and how it came back. -/
structure CallMade where
  call : StepCall
  reply : StepReply
  deriving DecidableEq

def CallMade.mark (c : CallMade) : CallMark :=
  ⟨c.call.phase, c.call.index, c.reply.result.outcome⟩

/-- The numbers of a definition fit into the words that a row keeps them in: the index is a
signed word of 32 bits, the number of failed attempts an unsigned one. -/
structure SagaDefinition.Fits (d : SagaDefinition) : Prop where
  steps : d.stepCount < 0x80000000
  attempts : d.retry.maxAttempts < 0x100000000

def plannedCall (row : Execution) (phase : Phase) (step : String) (context : Context) :
    StepCall where
  phase := phase
  step := step
  executionId := row.id
  index := row.stepIndex
  context := context
  rejected := match phase with
    | .execute => false
    | .compensate => context.isRejected row.stepIndex

/-- What is stored after a forward call, unless its outcome has no meaning. -/
def afterExecute? (d : SagaDefinition) (row : Execution) (step : String) (result : StepResult) :
    Option Transition :=
  let attempts := Engine.attemptsAfter row
  match result.outcome with
  | .ok => some (.stepDone result.fragment)
  | .retryable =>
    if d.retry.exhausted attempts then some (.budgetSpent step attempts result.message)
    else some (.attemptFailed attempts result.message)
  | .terminal => some (.rejected step result.message)
  | .unclassified _ => none

/-- What is stored after an undo. -/
def afterCompensate (d : SagaDefinition) (row : Execution) (step : String) (result : StepResult) :
    Transition :=
  let attempts := Engine.attemptsAfter row
  if result.outcome = .ok then .stepUndone result.fragment
  else if result.outcome = .retryable ∧ !d.retry.exhausted attempts then
    .attemptFailed attempts result.message
  else .gaveUp attempts (Engine.giveUpReason step attempts result)

/-- The calls that an owner makes on a row that it read, and the transition that it stores. -/
inductive Decides (d : SagaDefinition) (row : Execution) : List CallMade → Transition → Prop
  | begin (status : row.status = .started) : Decides d row [] .begun
  | cancel (status : row.status = .inProgress) (requested : row.cancelRequested = true) :
      Decides d row [] .cancelled
  | complete (status : row.status = .inProgress) (requested : row.cancelRequested = false)
      (noStep : row.totalSteps ≤ row.stepIndex) : Decides d row [] .completed
  | execute (status : row.status = .inProgress) (requested : row.cancelRequested = false)
      (isStep : row.stepIndex < row.totalSteps) (step : String)
      (named : Engine.stepName d row.stepIndex = .ok step) (context : Context)
      (decoded : Context.ofBlob row.context = .ok context) (reply : StepReply) (t : Transition)
      (follows : afterExecute? d row step reply.result = some t) :
      Decides d row [⟨plannedCall row .execute step context, reply⟩] t
  | finish (status : row.status = .compensating) (noStep : row.stepIndex < 0) :
      Decides d row [] .undoneAll
  | compensate (status : row.status = .compensating) (isStep : 0 ≤ row.stepIndex) (step : String)
      (named : Engine.stepName d row.stepIndex = .ok step) (context : Context)
      (decoded : Context.ofBlob row.context = .ok context) (reply : StepReply) :
      Decides d row [⟨plannedCall row .compensate step context, reply⟩]
        (afterCompensate d row step reply.result)

/-- The fields of a row that no transition touches. -/
structure Execution.Frame where
  id : String
  sagaType : String
  totalSteps : Int
  cancelRequested : Bool
  createdAt : Nat
  updatedAt : Nat
  completedAt : Nat
  version : Nat
  deriving DecidableEq, Repr

def Execution.frame (row : Execution) : Frame :=
  ⟨row.id, row.sagaType, row.totalSteps, row.cancelRequested, row.createdAt, row.updatedAt,
    row.completedAt, row.version⟩

/-- A row that a definition can be applied to: its number of steps is the definition's, it
stands in a place of its status and its context is readable. -/
structure WellFormed (d : SagaDefinition) (row : Execution) : Prop where
  steps : row.totalSteps = d.stepCount
  place : row.position.InPlace d.stepCount d.retry.maxAttempts
  readable : ∃ values : Context, row.context = values.toBlob

/-- What storing a transition on a row comes to. -/
structure Stores (d : SagaDefinition) (cancelSeen : Bool) (row : Execution) (made : List CallMade)
    (t : Transition) (changed : Execution) : Prop where
  next : t.next row = .ok changed
  move : Move d.stepCount d.retry.maxAttempts cancelSeen row.position (made.map CallMade.mark)
    changed.position
  frame : changed.frame = row.frame
  readable : ∃ values : Context, changed.context = values.toBlob

theorem apply_frame {t : Transition} {row changed : Execution}
    (applied : t.apply row = .ok changed) : changed.frame = row.frame := by
  cases t with
  | stepDone fragment =>
    simp only [Transition.apply] at applied
    cases merged : Transition.mergedBlob row.context fragment <;> rw [merged] at applied <;>
      cases applied
    rfl
  | stepUndone fragment =>
    simp only [Transition.apply] at applied
    cases merged : Transition.mergedBlob row.context fragment <;> rw [merged] at applied <;>
      cases applied
    rfl
  | _ =>
    cases applied
    rfl

theorem apply_of_next {t : Transition} {row changed : Execution} (next : t.next row = .ok changed) :
    t.apply row = .ok changed := by
  rw [Transition.next] at next
  split at next
  · cases next
  · rename_i applied
    split at next
    · cases next
    · cases next
      exact applied

/-- A transition touches neither the identity of a row nor its bookkeeping. -/
theorem next_frame {t : Transition} {row changed : Execution} (next : t.next row = .ok changed) :
    changed.frame = row.frame := apply_frame (apply_of_next next)

/-! ## Counting attempts -/

theorem attemptsAfter_eq {row : Execution} (room : row.retryCount + 1 < 0x100000000) :
    Engine.attemptsAfter row = row.retryCount + 1 :=
  wrapWord32_of_inRange room

/-! ## Storing a transition -/

section

variable {d : SagaDefinition} {base row changed : Execution} {made : List CallMade}
  {t : Transition} {cancelSeen : Bool}

theorem Stores.of_apply (applied : t.apply row = .ok changed)
    (move : Move d.stepCount d.retry.maxAttempts cancelSeen row.position
      (made.map CallMade.mark) changed.position)
    (frame : changed.frame = row.frame)
    (readable : ∃ values : Context, changed.context = values.toBlob) :
    Stores d cancelSeen row made t changed := by
  refine ⟨?_, move, frame, readable⟩
  have allowed : row.status.canTransition changed.status = true := move.canTransition
  simp [Transition.next, applied, allowed]

theorem mergedBlob_toBlob (values fragment : Context) :
    Transition.mergedBlob values.toBlob fragment = .ok (values.mergeFragment fragment).toBlob := by
  rw [Transition.mergedBlob, Context.ofBlob_toBlob]

theorem markedBlob_toBlob (values : Context) (index : Int) :
    Transition.markedBlob values.toBlob index = (values.markRejected index).toBlob := by
  rw [Transition.markedBlob, Context.ofBlob?_toBlob]

theorem attemptFailed_stores {phase : Phase} {step : String} {context : Context}
    {reply : StepReply} {attempts : Nat} {message : String} (formed : WellFormed d row)
    (status : row.status = phase.status) (index : base.stepIndex = row.stepIndex)
    (outcome : reply.result.outcome = .retryable) (counted : attempts = row.retryCount + 1)
    (left : attempts < d.retry.maxAttempts) :
    ∃ changed, Stores d cancelSeen row [⟨plannedCall base phase step context, reply⟩]
      (.attemptFailed attempts message) changed := by
  refine ⟨_, Stores.of_apply rfl ?_ rfl formed.readable⟩
  have move : Move d.stepCount d.retry.maxAttempts cancelSeen _ _ _ :=
    .repeated phase row.stepIndex row.retryCount (counted ▸ left)
  simpa [Execution.position, CallMade.mark, plannedCall, status, index, outcome, counted] using move

theorem stepDone_stores {step : String} {context : Context} {reply : StepReply}
    (fits : d.Fits) (formed : WellFormed d row) (status : row.status = .inProgress)
    (index : base.stepIndex = row.stepIndex) (outcome : reply.result.outcome = .ok) :
    ∃ changed, Stores d cancelSeen row [⟨plannedCall base .execute step context, reply⟩]
      (.stepDone reply.result.fragment) changed := by
  obtain ⟨values, written⟩ := formed.readable
  have place := formed.place
  simp only [Execution.position, status, Position.InPlace] at place
  have room := fits.steps
  have up : wrapSigned32 (row.stepIndex + 1) = row.stepIndex + 1 :=
    wrapSigned32_of_inRange (by omega) (by omega)
  have merged := mergedBlob_toBlob values reply.result.fragment
  have applied : (Transition.stepDone reply.result.fragment).apply row = .ok { row with
      context := (values.mergeFragment reply.result.fragment).toBlob
      stepIndex := row.stepIndex + 1
      retryCount := 0
      lastError := ""
      status := if row.stepIndex + 1 = row.totalSteps then .completed else .inProgress } := by
    simp only [Transition.apply, written, merged, up]
    rfl
  refine ⟨_, Stores.of_apply applied ?_ rfl ⟨_, rfl⟩⟩
  have total := formed.steps
  by_cases last : row.stepIndex + 1 = d.stepCount
  · have move : Move d.stepCount d.retry.maxAttempts cancelSeen _ _ _ :=
      .completed row.stepIndex row.retryCount last
    simpa [Execution.position, CallMade.mark, plannedCall, status, index, outcome, total, last]
      using move
  · have move : Move d.stepCount d.retry.maxAttempts cancelSeen _ _ _ :=
      .stepped row.stepIndex row.retryCount (by omega)
    simpa [Execution.position, CallMade.mark, plannedCall, status, index, outcome, total, last]
      using move

theorem stepUndone_stores {step : String} {context : Context} {reply : StepReply}
    (fits : d.Fits) (formed : WellFormed d row) (status : row.status = .compensating)
    (index : base.stepIndex = row.stepIndex) (isStep : 0 ≤ row.stepIndex)
    (outcome : reply.result.outcome = .ok) :
    ∃ changed, Stores d cancelSeen row [⟨plannedCall base .compensate step context, reply⟩]
      (.stepUndone reply.result.fragment) changed := by
  obtain ⟨values, written⟩ := formed.readable
  have place := formed.place
  simp only [Execution.position, status, Position.InPlace] at place
  have room := fits.steps
  have down : wrapSigned32 (row.stepIndex - 1) = row.stepIndex - 1 :=
    wrapSigned32_of_inRange (by omega) (by omega)
  have merged := mergedBlob_toBlob values reply.result.fragment
  have applied : (Transition.stepUndone reply.result.fragment).apply row = .ok { row with
      context := (values.mergeFragment reply.result.fragment).toBlob
      stepIndex := row.stepIndex - 1
      retryCount := 0
      lastError := ""
      status := if row.stepIndex - 1 < 0 then .compensated else .compensating } := by
    simp only [Transition.apply, written, merged, down]
    rfl
  refine ⟨_, Stores.of_apply applied ?_ rfl ⟨_, rfl⟩⟩
  by_cases last : row.stepIndex = 0
  · have move : Move d.stepCount d.retry.maxAttempts cancelSeen _ _ _ :=
      .compensated row.stepIndex row.retryCount last
    have below : row.stepIndex - 1 < 0 := by omega
    simpa only [Execution.position, CallMade.mark, plannedCall, status, index, outcome, below,
      if_true, List.map_cons, List.map_nil] using move
  · have move : Move d.stepCount d.retry.maxAttempts cancelSeen _ _ _ :=
      .undone row.stepIndex row.retryCount (by omega)
    have notBelow : ¬row.stepIndex - 1 < 0 := by omega
    simpa only [Execution.position, CallMade.mark, plannedCall, status, index, outcome, notBelow,
      if_false, List.map_cons, List.map_nil] using move

theorem gaveUp_stores {step reason : String} {context : Context} {reply : StepReply}
    {attempts : Nat} (formed : WellFormed d row) (status : row.status = .compensating)
    (index : base.stepIndex = row.stepIndex) (isStep : 0 ≤ row.stepIndex)
    (counted : attempts = row.retryCount + 1) (failed : reply.result.outcome ≠ .ok)
    (final : reply.result.outcome = .retryable → d.retry.maxAttempts ≤ attempts) :
    ∃ changed, Stores d cancelSeen row [⟨plannedCall base .compensate step context, reply⟩]
      (.gaveUp attempts reason) changed := by
  refine ⟨_, Stores.of_apply rfl ?_ rfl formed.readable⟩
  have move : Move d.stepCount d.retry.maxAttempts cancelSeen _ _ _ :=
    .gaveUp row.stepIndex row.retryCount reply.result.outcome failed (counted ▸ final) isStep
  simpa [Execution.position, CallMade.mark, plannedCall, status, index, counted] using move

theorem afterExecute?_stores {step : String} {context : Context} {reply : StepReply}
    (fits : d.Fits) (formed : WellFormed d row) (same : base.progress = row.progress)
    (status : row.status = .inProgress)
    (follows : afterExecute? d base step reply.result = some t) :
    ∃ changed, Stores d cancelSeen row [⟨plannedCall base .execute step context, reply⟩] t
      changed := by
  simp only [Execution.progress, Execution.Progress.mk.injEq] at same
  obtain ⟨_, index, retries, _⟩ := same
  have place := formed.place
  simp only [Execution.position, status, Position.InPlace] at place
  have room := fits.attempts
  have counted : Engine.attemptsAfter base = row.retryCount + 1 := by
    rw [attemptsAfter_eq (by omega), retries]
  rw [afterExecute?] at follows
  split at follows
  · rename_i outcome
    cases follows
    exact stepDone_stores fits formed status index outcome
  · rename_i outcome
    split at follows
    · rename_i spent
      cases follows
      refine ⟨_, Stores.of_apply rfl ?_ rfl formed.readable⟩
      have final : d.retry.maxAttempts ≤ row.retryCount + 1 := by
        simpa [RetryPolicy.exhausted, counted] using spent
      have move : Move d.stepCount d.retry.maxAttempts cancelSeen _ _ _ :=
        .turned row.stepIndex row.retryCount reply.result.outcome (.inr ⟨outcome, final⟩)
      simpa [Execution.position, CallMade.mark, plannedCall, status, index] using move
    · rename_i left
      cases follows
      have left : row.retryCount + 1 < d.retry.maxAttempts := by
        simpa [RetryPolicy.exhausted, counted] using left
      exact attemptFailed_stores formed status index outcome counted (counted ▸ left)
  · rename_i outcome
    cases follows
    obtain ⟨values, written⟩ := formed.readable
    refine ⟨_, Stores.of_apply rfl ?_ rfl ⟨_, written ▸ markedBlob_toBlob values row.stepIndex⟩⟩
    have move : Move d.stepCount d.retry.maxAttempts cancelSeen _ _ _ :=
      .turned row.stepIndex row.retryCount reply.result.outcome (.inl outcome)
    simpa [Execution.position, CallMade.mark, plannedCall, status, index] using move
  · cases follows

theorem afterCompensate_stores {step : String} {context : Context} {reply : StepReply}
    (fits : d.Fits) (formed : WellFormed d row) (same : base.progress = row.progress)
    (status : row.status = .compensating) (isStep : 0 ≤ row.stepIndex) :
    ∃ changed, Stores d cancelSeen row [⟨plannedCall base .compensate step context, reply⟩]
      (afterCompensate d base step reply.result) changed := by
  simp only [Execution.progress, Execution.Progress.mk.injEq] at same
  obtain ⟨_, index, retries, _⟩ := same
  have place := formed.place
  simp only [Execution.position, status, Position.InPlace] at place
  have room := fits.attempts
  have counted : Engine.attemptsAfter base = row.retryCount + 1 := by
    rw [attemptsAfter_eq (by omega), retries]
  rw [afterCompensate]
  split
  · rename_i outcome
    exact stepUndone_stores fits formed status index isStep outcome
  split
  · rename_i again
    have left : Engine.attemptsAfter base < d.retry.maxAttempts := by
      simpa [RetryPolicy.exhausted] using again.2
    exact attemptFailed_stores formed status index again.1 counted left
  · rename_i failed final
    apply gaveUp_stores formed status index isStep counted failed
    intro outcome
    simpa [RetryPolicy.exhausted, outcome] using final

/-- A decision on a row can be stored on every well-formed row with the same progress. -/
theorem Decides.stores (decides : Decides d base made t) (fits : d.Fits)
    (formed : WellFormed d row) (same : base.progress = row.progress)
    (total : base.totalSteps = row.totalSteps) :
    ∃ changed, Stores d base.cancelRequested row made t changed := by
  have fields := same
  simp only [Execution.progress, Execution.Progress.mk.injEq] at fields
  obtain ⟨status, index, _, _⟩ := fields
  have place := formed.place
  cases decides with
  | begin started =>
    rw [status] at started
    refine ⟨_, Stores.of_apply rfl ?_ rfl formed.readable⟩
    simpa [Execution.position, started] using Move.begun row.stepIndex row.retryCount
  | cancel running requested =>
    rw [status] at running
    simp only [Execution.position, running, Position.InPlace] at place
    have room := fits.steps
    have down : wrapSigned32 (row.stepIndex - 1) = row.stepIndex - 1 :=
      wrapSigned32_of_inRange (by omega) (by omega)
    refine ⟨_, Stores.of_apply rfl ?_ rfl formed.readable⟩
    simpa [Execution.position, running, down] using
      Move.cancelled row.stepIndex row.retryCount requested
  | complete running _ noStep =>
    -- A row in progress always stands at a step, so this decision is never made.
    rw [status] at running
    simp only [Execution.position, running, Position.InPlace] at place
    have total := formed.steps
    omega
  | execute running _ _ _ _ _ _ _ _ follows =>
    exact afterExecute?_stores fits formed same (status ▸ running) follows
  | finish compensating noStep =>
    rw [status] at compensating
    rw [index] at noStep
    refine ⟨_, Stores.of_apply rfl ?_ rfl formed.readable⟩
    simpa [Execution.position, compensating] using
      Move.nothingLeft row.stepIndex row.retryCount noStep
  | compensate compensating isStep =>
    exact afterCompensate_stores fits formed same (status ▸ compensating) (index ▸ isStep)

end

end SagaEngine
