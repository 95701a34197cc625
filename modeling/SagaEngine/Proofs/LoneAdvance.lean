import SagaEngine.Proofs.Advance
import SagaEngine.Proofs.MovesLeft
import SagaEngine.Proofs.SoleWriter
/-!
# One advance where nobody else writes

An advance of a stored row, whatever the row says, stores a choice of the owner on it or on the row
with a mark that a step call has left; or it finds the execution finished, or fails or gives up. It
fails only on a row that no execution has, and gives up only if somebody else holds a lease or a
reply has no meaning. Main statements: `Premises.settles`, `Premises.advancesHeld` and
`Premises.advances`.
-/

namespace SagaEngine

/-- What an advance of a stored row comes to, and the row that it leaves. It gives up only where
things are not fair, and fails only on a row that no execution has. -/
inductive Turns (d : SagaDefinition) (x : String) (row : Execution) (fair : Prop) (rows : RowMap) :
    Except Failure Advanced → Prop
  | rested (found : rows.get? x = some row) (terminal : row.status.isTerminal = true) :
      Turns d x row fair rows (.ok .terminal)
  | failed (failure : Failure) (malformed : d.Fits → ¬WellFormed d row) :
      Turns d x row fair rows (.error failure)
  | gaveUp (unfair : ¬fair) : Turns d x row fair rows (.ok .abandoned)
  | moved {t : Transition} {current changed : Execution} {onSuccess : Advanced} (now : Nat)
      (chooses : Chooses d row t) (becomes : row.Becomes current)
      (next : t.next current = .ok changed) (goesOn : onSuccess.goesOn = true)
      (found : rows.get? x = some ((changed.stamped now).replacing current)) :
      Turns d x row fair rows (.ok (if changed.status.isTerminal then .terminal else onSuccess))

section

variable {e : Engine} {d : SagaDefinition} {x : String} {row current changed : Execution}
  {t : Transition} {meant : Prop} {u v v' : Premises}

theorem WellFormed.becomes (formed : WellFormed d row) (becomes : row.Becomes current) :
    WellFormed d current := by
  cases becomes with
  | same => exact formed
  | marked => exact ⟨formed.steps, formed.place, formed.readable⟩

theorem Chooses.malformed (chooses : Chooses d row t) (becomes : row.Becomes current)
    {failure : Failure} (fails : t.next current = .error failure) (fits : d.Fits) :
    ¬WellFormed d row := by
  intro formed
  have formed' := formed.becomes becomes
  obtain ⟨made, decides⟩ := chooses.decides formed
  obtain ⟨changed, stores⟩ := decides.stores fits formed' becomes.progress.symm
    (formed.steps.trans formed'.steps.symm)
  rw [stores.next] at fails
  cases fails

theorem malformed_of_unnamed {failure : Failure}
    (unnamed : Engine.stepName d row.stepIndex = .error failure)
    (calls : row.status = .inProgress ∨ row.status = .compensating ∧ 0 ≤ row.stepIndex) :
    ¬WellFormed d row := by
  intro formed
  have place := formed.place
  have atStep : 0 ≤ row.stepIndex ∧ row.stepIndex < d.stepCount := by
    rcases calls with status | ⟨status, low⟩
    · simp only [Execution.position, status, Position.InPlace] at place
      exact ⟨place.1, place.2.1⟩
    · simp only [Execution.position, status, Position.InPlace] at place
      exact ⟨low, place.2.1⟩
  obtain ⟨step, named⟩ := stepName_eq_ok atStep.1 atStep.2
  rw [named] at unnamed
  cases unnamed

theorem Turns.weaken {fair fair' : Prop} {rows : RowMap} {r : Except Failure Advanced}
    (turns : Turns d x row fair rows r) (weaker : fair' → fair) : Turns d x row fair' rows r := by
  cases turns with
  | rested found terminal => exact .rested found terminal
  | failed failure malformed => exact .failed failure malformed
  | gaveUp unfair => exact .gaveUp fun fair => unfair (weaker fair)
  | moved now chooses becomes next goesOn found =>
    exact .moved now chooses becomes next goesOn found

namespace Premises

/-- Nobody has a lease of the execution in force. -/
def Free (x : String) (v : Premises) : Prop := v.leases.active x v.clock = none

theorem Later.free (later : Later v v') (free : v.Free x) : v'.Free x := by
  rw [Free, later.leases]
  exact v.leases.active_later later.onward free

/-! ## Storing a choice -/

/-- What becomes of a transition that was chosen on one row and is stored on another one. -/
inductive Persisted (t : Transition) (row current : Execution) (v v' : Premises) :
    Except Failure (Option Execution) → Prop
  | failed (failure : Failure) (read : Execution) (becomes : row.Becomes read)
      (fails : t.next read = .error failure) (rests : Rests v v') :
      Persisted t row current v v' (.error failure)
  | stored (changed : Execution) (now : Nat) (next : t.next current = .ok changed)
      (puts : Puts v v' ((changed.stamped now).replacing current)) :
      Persisted t row current v v' (.ok (some ((changed.stamped now).replacing current)))

theorem persists_again (tries : Nat) (becomes : row.Becomes current)
    (found : v.rows.get? x = some current) (rests : Rests u v) :
    Ensures (terms x meant) (fun r v' => Persisted t row current u v' r)
      (Engine.persistWithin t (tries + 1) current) v := by
  refine Ensures.bind (Ensures.ofExcept ?_)
  cases next : t.next current with
  | error failure => exact .failed failure current becomes next rests
  | ok changed =>
    have id : changed.id = x := by
      have kept := congrArg Execution.Frame.id (next_frame next)
      exact kept.trans (v.keyed x current found)
    refine Ensures.bind (asksAside rfl fun now v₁ rests₁ => ?_)
    have found₁ : v₁.rows.get? (changed.stamped now).id = some current := by
      rw [rests₁.rows]
      exact id ▸ found
    refine Ensures.bind ((writesOnce found₁).mono ?_)
    rintro r v₂ (⟨-, rfl, puts⟩ | ⟨differs, -⟩)
    · exact .stored changed now next (puts.between (rests.trans rests₁) (.refl v₂))
    · exact absurd rfl differs

/-- If the row was marked since it was read, the first try is outrun by the mark and the second one
is not. -/
theorem persists (becomes : row.Becomes current) (found : v.rows.get? x = some current) :
    Ensures (terms x meant) (fun r v' => Persisted t row current v v' r) (Engine.persist row t)
      v := by
  have id : row.id = x :=
    (congrArg Execution.Origin.id becomes.origin).symm.trans (v.keyed x current found)
  by_cases version : current.version = row.version
  · have same := becomes.eq_of_version version
    subst same
    exact persists_again 2 becomes found (.refl v)
  · refine Ensures.bind (Ensures.ofExcept ?_)
    cases next : t.next row with
    | error failure => exact .failed failure row .same next (.refl v)
    | ok changed =>
      have id' : changed.id = x := (congrArg Execution.Frame.id (next_frame next)).trans id
      refine Ensures.bind (asksAside rfl fun now v₁ rests => ?_)
      have found₁ : v₁.rows.get? (changed.stamped now).id = some current := by
        rw [rests.rows]
        exact id' ▸ found
      refine Ensures.bind ((writesOnce found₁).mono ?_)
      rintro r v₂ (⟨level, -⟩ | ⟨-, rfl, rests₂⟩)
      · exact absurd level version
      · refine Ensures.bind ((loads x row.id v₂).mono ?_)
        rintro r v₃ ⟨rfl, rests₃⟩
        have found₂ : v₂.rows.get? x = some current := by
          rw [rests₂.rows, rests.rows, found]
        have fresh : current.sameProgress row = true := decide_eq_true becomes.progress
        rw [id, found₂]
        dsimp only
        rw [if_pos fresh]
        exact persists_again 1 becomes (rests₃.rows ▸ found₂)
          ((rests.trans rests₂).trans rests₃)

theorem reports (row : Execution) (v : Premises) :
    Ensures (terms x meant) (fun r v' => r = .ok () ∧ Rests v v') (Engine.report row) v := by
  have told (v₁ : Premises) (rests : Rests v v₁) :
      Ensures (terms x meant) (fun r v' => r = .ok () ∧ Rests v v')
        (do
          Action.log (.info "saga finished"
            [.execution row.id, .text "saga_type" row.sagaType, .text "status" row.status.name,
              .int "step_index" row.stepIndex, .text "failed_step" row.failedStep,
              .text "failure_reason" row.failureReason])
          Action.ask (.completed row)) v₁ := by
    refine Ensures.bind (writesLine fun v₂ rests₂ => ?_)
    refine asks fun answer v₃ handles _ => ⟨rfl, (rests.trans rests₂).trans ?_⟩
    exact handles.rests handles.leases (handles.serves rfl) rfl
  rw [Engine.report]
  split
  · refine Ensures.bind (asks fun answer v₁ handles _ => told v₁ ?_)
    exact handles.rests handles.leases (handles.serves rfl) rfl
  · exact told v (.refl v)

/-- An owner stores its choice, unless the row is none that an execution has. -/
theorem settles (chooses : Chooses d row t) (becomes : row.Becomes current)
    (found : v.rows.get? x = some current) (later : Later u v) {onSuccess : Advanced}
    (goesOn : onSuccess.goesOn = true) :
    Ensures (terms x meant) (fun r v' => Turns d x row meant v'.rows r ∧ Later u v')
      (Engine.settle row t onSuccess) v := by
  refine Ensures.bind ((persists becomes found).mono ?_)
  rintro r v₁ (⟨failure, read, becomes', fails, rests⟩ | ⟨changed, now, next, puts⟩)
  · exact ⟨.failed failure (chooses.malformed becomes' fails), later.trans rests.toLater⟩
  · have later₁ := later.trans puts.toLater
    have id : ((changed.stamped now).replacing current).id = x := by
      have kept := congrArg Execution.Frame.id (next_frame next)
      exact kept.trans (v.keyed x current found)
    have found₁ : v₁.rows.get? x = some ((changed.stamped now).replacing current) := by
      rw [puts.rows, id]
      exact Dictionary.get?_insert_self ..
    have turns : Turns d x row meant v₁.rows _ := .moved now chooses becomes next goesOn found₁
    dsimp only [Engine.finish]
    split
    · rename_i terminal
      have terminal' : changed.status.isTerminal = true := terminal
      rw [terminal', if_pos rfl] at turns
      refine Ensures.bind ((reports _ v₁).mono ?_)
      rintro r v₂ ⟨rfl, rests⟩
      exact ⟨rests.rows ▸ turns, later₁.trans rests.toLater⟩
    · rename_i unfinished
      have unfinished' : ¬changed.status.isTerminal = true := unfinished
      rw [if_neg unfinished'] at turns
      exact ⟨turns, later₁⟩

theorem notesAndSettles {entry : LogEntry} (chooses : Chooses d row t)
    (becomes : row.Becomes current) (found : v.rows.get? x = some current) (later : Later u v)
    {onSuccess : Advanced} (goesOn : onSuccess.goesOn = true) :
    Ensures (terms x meant) (fun r v' => Turns d x row meant v'.rows r ∧ Later u v')
      (do
        Action.log entry
        Engine.settle row t onSuccess) v := by
  refine Ensures.bind (writesLine fun v₁ rests => ?_)
  exact settles chooses becomes (rests.rows ▸ found) (later.trans rests.toLater) goesOn

/-! ## Calling a step -/

/-- What is known after a step was called, or was not since its context is unreadable. -/
inductive CameBack (x : String) (row : Execution) (meant : Prop) (v v' : Premises) :
    Except Failure StepResult → Prop
  | returned (result : StepResult) (current : Execution)
      (means : meant → ∀ code, result.outcome ≠ .unclassified code) (becomes : row.Becomes current)
      (found : v'.rows.get? x = some current) (later : Later v v') :
      CameBack x row meant v v' (.ok result)

theorem calls {call : StepCall} (found : v.rows.get? x = some row) :
    Ensures (terms x meant) (fun r v' => CameBack x row meant v v' r)
      (Engine.callStep d row call) v := by
  refine Ensures.bind (asksAside rfl fun span v₁ rests => ?_)
  refine Ensures.bind (asks fun reply v₂ handles means => ?_)
  obtain ⟨current, found₂, becomes⟩ := handles.marks rfl row (rests.rows ▸ found)
  have later : Later v v₂ := rests.toLater.trans ⟨handles.leases, handles.onward⟩
  have closes (v₃ : Premises) (rests₃ : Rests v₂ v₃) :
      Ensures (terms x meant) (fun r v' => CameBack x row meant v v' r)
        (do
          Action.log (.debug (Engine.returnedLine call.phase)
            [.execution row.id, .text "step" call.step,
              .text "outcome" reply.result.outcome.label])
          Action.ask (.closeSpan span)
          return reply.result) v₃ := by
    refine Ensures.bind (writesLine fun v₄ rests₄ => ?_)
    refine Ensures.bind (asksAside rfl fun _ v₅ rests₅ => ?_)
    have rested := (rests₃.trans rests₄).trans rests₅
    exact .returned reply.result current means becomes (rested.rows ▸ found₂)
      (later.trans rested.toLater)
  dsimp only
  split
  · exact Ensures.bind (asksAside rfl fun _ v₃ rests₃ => closes v₃ rests₃)
  · exact closes v₂ (.refl v₂)

theorem invokes {step : String} {phase : Phase} (found : v.rows.get? x = some row) :
    Ensures (terms x meant) (fun r v' => CameBack x row meant v v' r)
      (Engine.invoke d row step phase) v := by
  rw [Engine.invoke]
  split
  · refine .returned _ row ?_ .same found (.refl v)
    intro _ code impossible
    cases impossible
  · exact calls found

/-! ## One advance -/

theorem executes (status : row.status = .inProgress) (requested : row.cancelRequested = false)
    (isStep : row.stepIndex < row.totalSteps) (found : v.rows.get? x = some row) :
    Ensures (terms x meant) (fun r v' => Turns d x row meant v'.rows r ∧ Later v v')
      (Engine.executeStep d row) v := by
  refine Ensures.bind (Ensures.ofExcept ?_)
  cases named : Engine.stepName d row.stepIndex with
  | error failure =>
    exact ⟨.failed failure fun _ => malformed_of_unnamed named (.inl status), .refl v⟩
  | ok step =>
    refine Ensures.bind ((invokes found).mono ?_)
    rintro _ v₁ ⟨result, current, means, becomes, found₁, later⟩
    have chooses {t : Transition} (follows : afterExecute? d row step result = some t) :
        Chooses d row t := .execute status requested isStep step named result t follows
    dsimp only
    split
    · rename_i outcome
      exact settles (chooses (by simp [afterExecute?, outcome])) becomes found₁ later rfl
    · rename_i outcome
      split
      · rename_i spent
        exact notesAndSettles (chooses (by simp [afterExecute?, outcome, spent])) becomes found₁
          later rfl
      · rename_i left
        exact notesAndSettles (chooses (by simp [afterExecute?, outcome, left])) becomes found₁
          later rfl
    · rename_i outcome
      exact notesAndSettles (chooses (by simp [afterExecute?, outcome])) becomes found₁ later rfl
    · rename_i code outcome
      exact ⟨.gaveUp fun meant => means meant code outcome, later⟩

theorem undoes (status : row.status = .compensating) (isStep : 0 ≤ row.stepIndex)
    (found : v.rows.get? x = some row) :
    Ensures (terms x meant) (fun r v' => Turns d x row meant v'.rows r ∧ Later v v')
      (Engine.undoStep d row) v := by
  refine Ensures.bind (Ensures.ofExcept ?_)
  cases named : Engine.stepName d row.stepIndex with
  | error failure =>
    exact ⟨.failed failure fun _ => malformed_of_unnamed named (.inr ⟨status, isStep⟩), .refl v⟩
  | ok step =>
    refine Ensures.bind ((invokes found).mono ?_)
    rintro _ v₁ ⟨result, current, means, becomes, found₁, later⟩
    have chooses : Chooses d row (afterCompensate d row step result) :=
      .compensate status isStep step named result
    unfold afterCompensate at chooses
    dsimp only at chooses ⊢
    split
    · rename_i outcome
      rw [if_pos outcome] at chooses
      exact settles chooses becomes found₁ later rfl
    · rename_i outcome
      rw [if_neg outcome] at chooses
      split
      · rename_i again
        rw [if_pos again] at chooses
        exact notesAndSettles chooses becomes found₁ later rfl
      · rename_i final
        rw [if_neg final] at chooses
        exact notesAndSettles chooses becomes found₁ later rfl

theorem advancesHeld (found : v.rows.get? x = some row) :
    Ensures (terms x meant) (fun r v' => Turns d x row meant v'.rows r ∧ Later v v')
      (Engine.advanceHeld d x) v := by
  refine Ensures.bind ((statuses x x v).mono ?_)
  rintro r v₁ ⟨rests, seen⟩
  rw [found] at seen
  subst seen
  have found₁ : v₁.rows.get? x = some row := rests.rows ▸ found
  have later := rests.toLater
  have since {r : Except Failure Advanced} {v₂ : Premises}
      (turned : Turns d x row meant v₂.rows r ∧ Later v₁ v₂) :
      Turns d x row meant v₂.rows r ∧ Later v v₂ := ⟨turned.1, later.trans turned.2⟩
  dsimp only
  cases status : row.status with
  | started => exact settles (.begin status) .same found₁ later rfl
  | inProgress =>
    dsimp only [Engine.stepForward]
    split
    · rename_i requested
      exact notesAndSettles (.cancel status requested) .same found₁ later rfl
    · rename_i unasked
      have requested : row.cancelRequested = false := by simpa using unasked
      split
      · rename_i noStep
        exact settles (.complete status requested noStep) .same found₁ later rfl
      · rename_i isStep
        exact (executes status requested (by omega) found₁).mono fun r v' => since
  | compensating =>
    dsimp only [Engine.stepBackward]
    split
    · rename_i noStep
      exact settles (.finish status noStep) .same found₁ later rfl
    · rename_i isStep
      exact (undoes status (by omega) found₁).mono fun r v' => since
  | compensated | completed | failed =>
    exact ⟨.rested found₁ (by rw [status]; rfl), later⟩

/-- A lease is granted if the execution is free, and only then. -/
theorem acquires (x : String) (v : Premises) :
    Ensures (terms x meant)
      (fun r v' => v'.rows = v.rows ∧
        (v.Free x ∧ (∃ lease : Lease, lease.executionId = x ∧ r = .ok (some lease) ∧
            v'.leases.get? x = some lease) ∨
          ¬v.Free x ∧ r = .ok none))
      (Action.ask (.acquire x)) v := by
  refine asks fun answer v' handles _ => ?_
  have rows : v'.rows = v.rows := congrArg MemoryStore.committed (handles.serves rfl)
  have answers : v.leases.Answers v.clock (.acquire x) answer v'.leases := handles.leases
  rcases answers.granted_or_held with ⟨free, lease, about, rfl, leases⟩ | ⟨held, rfl, -⟩
  · exact ⟨rows, .inl ⟨free, lease, about, rfl, leases ▸ Dictionary.get?_insert_self ..⟩⟩
  · exact ⟨rows, .inr ⟨held, rfl⟩⟩

/-- A lease that is given back leaves the execution free. -/
theorem releases {lease : Lease} (own : v.leases.get? x = some lease)
    (about : lease.executionId = x) :
    Ensures (terms x meant) (fun r v' => r = .ok () ∧ v'.rows = v.rows ∧ v'.Free x)
      (Action.ask (.release lease)) v := by
  refine asks fun answer v' handles _ => ?_
  refine ⟨rfl, congrArg MemoryStore.committed (handles.serves rfl), ?_⟩
  have gone := LeaseTable.Answers.get?_released (about ▸ own) handles.leases
  rw [Free, LeaseTable.active, ← about, gone]
  rfl

/-- An advance leaves an execution free that nobody else has leased. -/
theorem advances (e : Engine) (found : v.rows.get? x = some row)
    (known : e.definitionOf row = .ok d) :
    Ensures (terms x meant)
      (fun r v' => Turns d x row (meant ∧ v.Free x) v'.rows r ∧ (v.Free x → v'.Free x))
      (e.advance x) v := by
  refine Ensures.bind ((statuses x x v).mono ?_)
  rintro r v₁ ⟨rests, seen⟩
  rw [found] at seen
  subst seen
  have found₁ : v₁.rows.get? x = some row := rests.rows ▸ found
  dsimp only
  split
  · rename_i terminal
    exact ⟨.rested found₁ terminal, rests.toLater.free⟩
  · rw [known]
    refine Ensures.bind (Ensures.ofExcept (Ensures.bind ((acquires x v₁).mono ?_)))
    rintro _ v₂ ⟨rows₂, ⟨-, lease, about, rfl, own⟩ | ⟨held, rfl⟩⟩
    · refine Ensures.ensuring ((advancesHeld (rows₂ ▸ found₁)).mono ?_)
      rintro r v₃ ⟨turns, later⟩
      have own₃ : v₃.leases.get? x = some lease := by rw [later.leases, own]
      refine (releases own₃ about).mono ?_
      rintro _ v₄ ⟨rfl, rows₄, free₄⟩
      exact ⟨rows₄ ▸ turns.weaken And.left, fun _ => free₄⟩
    · have leased : ¬v.Free x := fun free => held (rests.toLater.free free)
      exact Ensures.bind (writesLine fun v₃ _ =>
        ⟨.gaveUp fun fair => leased fair.2, fun free => absurd free leased⟩)

end Premises

end

end SagaEngine
