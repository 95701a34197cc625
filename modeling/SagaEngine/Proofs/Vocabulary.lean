import SagaEngine.Dispatch.Worker
/-!
# What programs ask for

A program makes requests of a kind only if it does so whatever it is answered. A move of an
execution reads, writes, calls and reports under a lease; it neither waits nor touches the queue
of the worker pool or the memory of the recovery sweep. Main statements: `Program.Only.run`,
`advance_only` and `resume_only`.
-/

namespace SagaEngine

namespace Program

variable {Q : Type} {R : Q → Type} {ε α β σ : Type} {P P' : Q → Prop}

/-- Whatever it is answered, the program asks questions of one kind only. -/
def Only (P : Q → Prop) : Program Q R ε α → Prop
  | done _ => True
  | failed _ => True
  | ask question next => P question ∧ ∀ answer, (next answer).Only P

theorem attempt_bind (p : Program Q R ε α) (f : α → Program Q R ε β) :
    (p >>= f).attempt = p.attempt >>= fun r =>
      match r with
      | .ok value => (f value).attempt
      | .error failure => .done (.error failure) := by
  induction p with
  | done | failed => rfl
  | ask q next ih => exact congrArg (Program.ask q) (funext ih)

namespace Only

theorem ofExcept (value : Except ε α) : Only P (ofExcept value : Program Q R ε α) := by
  cases value <;> trivial

theorem question {q : Q} (kind : P q) : Only P (question q : Program Q R ε (R q)) :=
  ⟨kind, fun _ => trivial⟩

theorem mono {p : Program Q R ε α} (only : p.Only P) (wider : ∀ q, P q → P' q) : p.Only P' := by
  induction p with
  | done | failed => trivial
  | ask q next ih => exact ⟨wider q only.1, fun answer => ih answer (only.2 answer)⟩

theorem bind {p : Program Q R ε α} {f : α → Program Q R ε β} (first : p.Only P)
    (rest : ∀ value, (f value).Only P) : (p >>= f).Only P := by
  induction p with
  | done value => exact rest value
  | failed => trivial
  | ask q next ih => exact ⟨first.1, fun answer => ih answer (first.2 answer)⟩

theorem ensuring {p : Program Q R ε α} {closing : Program Q R ε Unit} (first : p.Only P)
    (closes : closing.Only P) : (p.ensuring closing).Only P := by
  induction p with
  | done | failed => exact bind closes fun _ => trivial
  | ask q next ih => exact ⟨first.1, fun answer => ih answer (first.2 answer)⟩

/-- What every question of a kind keeps, a program that asks no others keeps. -/
theorem run {p : Program Q R ε α} (only : p.Only P) {environment : (q : Q) → σ → R q × σ}
    (keeps : σ → Prop) (kept : ∀ q s, P q → keeps s → keeps (environment q s).2) {s : σ}
    (holds : keeps s) : keeps (p.run environment s).2 := by
  induction p generalizing s with
  | done | failed => exact holds
  | ask q next ih => exact ih _ (only.2 _) (kept q s only.1 holds)

end Only

end Program

open Program (Only)

/-- What a move of an execution asks for. -/
def Request.isMove : Request → Bool
  | .now | .begin | .find .. | .update .. | .commit _ | .drop _ | .acquire _ | .release _
  | .call .. | .openSpan _ | .failSpan .. | .closeSpan _ | .log _ | .alert _ | .completed _ => true
  | _ => false

/-- What it takes to drive an execution: moves, and waiting between them. -/
def Request.isDrive : Request → Bool
  | .sleep _ => true
  | q => q.isMove

/-- What it takes to resume an execution: to drive it, or to have it driven. -/
def Request.isResume : Request → Bool
  | .dispatch _ => true
  | q => q.isDrive

section

variable {α : Type} {P : Request → Prop}

theorem ask_only {q : Request} (kind : P q) : (Action.ask q).Only P := Only.question kind

theorem log_only (logs : ∀ entry, P (.log entry)) (entry : LogEntry) : (Action.log entry).Only P :=
  ask_only (logs entry)

theorem transaction_only {body : Nat → Action α} (begins : P .begin) (drops : ∀ tx, P (.drop tx))
    (inside : ∀ tx, (body tx).Only P) : (Action.withTransaction body).Only P :=
  .bind (ask_only begins) fun _ => .bind (.ofExcept _) fun tx =>
    .ensuring (inside tx) (ask_only (drops tx))

end

section

variable (e : Engine) (d : SagaDefinition) (base row : Execution) (t : Transition) (x : String)

/-- The program asks for what a move takes. -/
abbrev Moves {α : Type} (p : Action α) : Prop := p.Only (·.isMove = true)

theorem move_line (entry : LogEntry) : Moves (Action.log entry) := ask_only rfl

theorem load_only : Moves (Engine.load x) :=
  transaction_only rfl (fun _ => rfl) fun _ =>
    .bind (ask_only rfl) fun _ => .bind (.ofExcept _) fun _ =>
      .bind (.bind (ask_only rfl) fun _ => .ofExcept _) fun _ => trivial

theorem getStatus_only : Moves (Engine.getStatus x) := by
  refine .bind (load_only x) fun found => ?_
  split <;> trivial

theorem writeOnce_only : Moves (Engine.writeOnce base row) := by
  refine transaction_only rfl (fun _ => rfl) fun tx => .bind (ask_only rfl) fun answer => ?_
  split
  · trivial
  · split
    · exact .bind (move_line _) fun _ => trivial
    · trivial
    · trivial
  · refine .bind (ask_only rfl) fun committed => ?_
    split
    · trivial
    · split
      · exact .bind (move_line _) fun _ => trivial
      · trivial

theorem persistWithin_only (tries : Nat) : Moves (Engine.persistWithin t tries base) := by
  have abandons (x : String) : Moves (Engine.abandon x) := .bind (move_line _) fun _ => trivial
  induction tries generalizing base with
  | zero => trivial
  | succ tries ih =>
    refine .bind (.ofExcept _) fun row => .bind (ask_only rfl) fun now => ?_
    refine .bind (writeOnce_only base _) fun written => ?_
    split
    · trivial
    · trivial
    · refine .bind (load_only base.id) fun fresh => ?_
      split
      · exact abandons base.id
      · split
        · exact ih _
        · exact abandons base.id

theorem report_only : Moves (Engine.report row) := by
  have told : Moves (do
      Action.log (.info "saga finished"
        [.execution row.id, .text "saga_type" row.sagaType, .text "status" row.status.name,
          .int "step_index" row.stepIndex, .text "failed_step" row.failedStep,
          .text "failure_reason" row.failureReason])
      Action.ask (.completed row)) := .bind (move_line _) fun _ => ask_only rfl
  rw [Engine.report]
  split
  · exact .bind (ask_only rfl) fun _ => told
  · exact told

theorem settle_only (onSuccess : Advanced) : Moves (Engine.settle base t onSuccess) := by
  refine .bind (persistWithin_only base t _) fun written => ?_
  cases written with
  | none => trivial
  | some row =>
    rw [Engine.finish]
    split
    · exact .bind (report_only row) fun _ => trivial
    · trivial

theorem invoke_only (step : String) (phase : Phase) : Moves (Engine.invoke d row step phase) := by
  rw [Engine.invoke]
  split
  · trivial
  · refine .bind (ask_only rfl) fun span => .bind (ask_only rfl) fun reply => ?_
    dsimp only
    split
    · exact .bind (ask_only rfl) fun _ => .bind (move_line _) fun _ =>
        .bind (ask_only rfl) fun _ => trivial
    · exact .bind (move_line _) fun _ => .bind (ask_only rfl) fun _ => trivial

theorem retryLater_only (step message line : String) :
    Moves (Engine.retryLater d row step message line) :=
  .bind (move_line _) fun _ => settle_only _ _ _

theorem executeStep_only : Moves (Engine.executeStep d row) := by
  refine .bind (.ofExcept _) fun step => .bind (invoke_only d row step .execute) fun result => ?_
  split
  · exact settle_only _ _ _
  · dsimp only
    split
    · exact .bind (move_line _) fun _ => settle_only _ _ _
    · exact retryLater_only _ _ _ _ _
  · exact .bind (move_line _) fun _ => settle_only _ _ _
  · trivial

theorem undoStep_only : Moves (Engine.undoStep d row) := by
  refine .bind (.ofExcept _) fun step => .bind (invoke_only d row step .compensate) fun result => ?_
  dsimp only
  split
  · exact settle_only _ _ _
  · split
    · exact retryLater_only _ _ _ _ _
    · exact .bind (move_line _) fun _ => settle_only _ _ _

theorem advanceHeld_only : Moves (Engine.advanceHeld d x) := by
  refine .bind (getStatus_only x) fun row => ?_
  split
  · exact settle_only _ _ _
  · rw [Engine.stepForward]
    split
    · exact .bind (move_line _) fun _ => settle_only _ _ _
    · split
      · exact settle_only _ _ _
      · exact executeStep_only d row
  · rw [Engine.stepBackward]
    split
    · exact settle_only _ _ _
    · exact undoStep_only d row
  · trivial

/-- A move neither waits nor hands anything over. -/
theorem advance_only : Moves (e.advance x) := by
  refine .bind (getStatus_only x) fun seen => ?_
  split
  · trivial
  · refine .bind (.ofExcept _) fun d => .bind (ask_only rfl) fun lease => ?_
    split
    · exact .bind (move_line _) fun _ => trivial
    · exact .ensuring (advanceHeld_only d x) (ask_only rfl)

theorem drive_only : (e.drive x).Only (·.isDrive = true) := by
  have move {q : Request} (moves : q.isMove = true) : q.isDrive = true := by
    cases q <;> first | rfl | exact moves
  have within (moves : Nat) : (e.driveWithin x moves).Only (·.isDrive = true) := by
    induction moves with
    | zero => trivial
    | succ moves ih =>
      refine .bind ((advance_only e x).mono fun _ => move) fun advanced => ?_
      split
      · exact ih
      · exact .bind (ask_only rfl) fun _ => ih
      · trivial
  exact .bind (within _) fun _ => (getStatus_only x).mono fun _ => move

theorem resume_only : (e.resume x).Only (·.isResume = true) := by
  have drives {q : Request} (drive : q.isDrive = true) : q.isResume = true := by
    cases q <;> first | rfl | exact drive
  have moves {q : Request} (moves : q.isMove = true) : q.isResume = true := by
    cases q <;> first | rfl | exact moves
  refine .bind ((getStatus_only x).mono fun _ => moves) fun row => ?_
  split
  · exact (move_line _).mono fun _ => moves
  · refine .bind (.ofExcept _) fun _ => .bind ((move_line _).mono fun _ => moves) fun _ => ?_
    refine .bind (ask_only rfl) fun taken => ?_
    split
    · trivial
    · exact .bind ((drive_only e x).mono fun _ => drives) fun _ => trivial

end

end SagaEngine
