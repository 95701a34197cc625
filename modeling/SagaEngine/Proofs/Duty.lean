import SagaEngine.Proofs.Fleet
/-!
# What the writer of a terminal row owes

Whoever commits a terminal row has to report it, once and before anything else that is told
to anybody: an alert if the execution failed, and then the row itself. A program that commits
no terminal row owes nothing, and neither does one that has come to its end. Main statements:
`settle_dutiful`, `advance_dutiful`, `handleAll_dutiful` and `job_dutiful`.
-/

namespace SagaEngine

/-- What a program has to report: nothing, a terminal row, or one whose failure it has already
raised an alert about. -/
inductive Duty where
  | clear
  | owes (row : Execution)
  | alarmed (row : Execution)

/-- The alert about an execution that failed. -/
def Execution.failureAlert (row : Execution) : Alert :=
  ⟨row.id, row.sagaType, row.status.name, row.lastError⟩

/-- Observers are told something by the request. -/
def Request.isReport : Request → Bool
  | .alert _ => true
  | .completed _ => true
  | _ => false

namespace Duty

/-- What is owed after a row was committed. -/
def of (row : Execution) : Duty := if row.status.isTerminal then owes row else clear

def after : Duty → Request → List Execution → Duty
  | _, .commit _, row :: _ => of row
  | owes row, .alert _, _ => alarmed row
  | _, .completed _, _ => clear
  | duty, _, _ => duty

/-- What a program may do while it owes something: report that, in order, and nothing else. -/
inductive Allows (job : Job) : Duty → Request → List Execution → Prop
  | plain (duty : Duty) (q : Request) (unreported : q.isReport = false) : Allows job duty q []
  | commits (tx : Nat) (row : Execution) : Allows job clear (.commit tx) [row]
  | alerts (row : Execution) (failed : row.status = .failed) :
      Allows job (owes row) (.alert row.failureAlert) []
  | overdue (options : RecoveryOptions) (now : Nat) (row : Execution)
      (sweeps : job = .sweep options now) (active : row.status.isTerminal = false) :
      Allows job clear (.alert (Sweep.overdueAlert now row)) []
  | completes (row : Execution) (unfailed : row.status ≠ .failed) :
      Allows job (owes row) (.completed row) []
  | completesFailed (row : Execution) : Allows job (alarmed row) (.completed row) []

theorem after_plain (duty : Duty) {q : Request} (unreported : q.isReport = false) :
    duty.after q [] = duty := by
  cases q with
  | alert | completed => cases unreported
  | _ => cases duty <;> rfl

theorem isReport_of_isRead {q : Request} (read : q.isRead = true) : q.isReport = false := by
  cases q <;> first | rfl | cases read

def rule (job : Job) : Rule Duty where
  after duty q _ installed := duty.after q installed
  allows duty q _ installed := Allows job duty q installed
  after_read duty _ _ read := duty.after_plain (isReport_of_isRead read)
  allows_read duty q _ read := .plain duty q (isReport_of_isRead read)

/-- The contract of a job that has to report what it commits. -/
abbrev contract (job : Job) : Contract Request Response (Noted Duty) :=
  (rule job).contract fun _ => True

end Duty

/-- A program that owes nothing at first owes nothing at its end. -/
def Dutiful {α : Type} (job : Job) (p : Action α) : Prop :=
  ∀ opened, Ensures (Duty.contract job) (fun _ s => s.note = .clear) p ⟨opened, .clear⟩

section

variable {job : Job} {α β : Type} {opened : Numbered PendingWrites} {e : Engine} {x : String}

/-- A request that is no report changes nothing about what is owed. -/
theorem Duty.ask {duty : Duty} {q : Request}
    {post : Except Failure (Response q) → Noted Duty → Prop} (unreported : q.isReport = false)
    (nothing : ∀ s answer, installs s q answer = [])
    (answered : ∀ answer opened, post (.ok answer) ⟨opened, duty⟩) :
    Ensures (Duty.contract job) post (Action.ask q) ⟨opened, duty⟩ := by
  refine Ensures.unnoted (fun _ answer => nothing _ answer) (fun _ => .plain _ q unreported)
    (fun _ => duty.after_plain unreported) ?_
  intro rows answer s' _ _
  exact answered answer _

namespace Dutiful

theorem ofExcept (value : Except Failure α) : Dutiful job (Program.ofExcept value) :=
  fun _ => Ensures.ofExcept rfl

theorem done (value : α) : Dutiful job (Program.done value) := ofExcept (.ok value)

theorem failed (failure : Failure) : Dutiful job (Program.failed failure : Action α) :=
  ofExcept (.error failure)

theorem bind {p : Action α} {f : α → Action β} (first : Dutiful job p)
    (rest : ∀ value, Dutiful job (f value)) : Dutiful job (p >>= f) := by
  intro opened
  refine Ensures.bind ((first opened).mono ?_)
  rintro (failure | value) ⟨opened', duty⟩ (rfl : duty = .clear)
  · rfl
  · exact rest value opened'

theorem ensuring {p : Action α} {closing : Action Unit} (first : Dutiful job p)
    (closes : Dutiful job closing) : Dutiful job (p.ensuring closing) := by
  intro opened
  refine Ensures.ensuring ((first opened).mono ?_)
  rintro r ⟨opened', duty⟩ (rfl : duty = .clear)
  refine (closes opened').mono ?_
  rintro (failure | value) s settled <;> exact settled

theorem attempt {p : Action α} (dutiful : Dutiful job p) : Dutiful job p.attempt :=
  fun opened => Ensures.attempt (dutiful opened)

theorem ask {q : Request} (unreported : q.isReport = false)
    (nothing : ∀ s answer, installs s q answer = []) : Dutiful job (Action.ask q) :=
  fun _ => Duty.ask unreported nothing fun _ _ => rfl

theorem log (entry : LogEntry) : Dutiful job (Action.log entry) := ask rfl fun _ _ => rfl

theorem status (x : String) : Dutiful job (Engine.getStatus x) :=
  fun _ => Ensures.status (fun _ _ _ _ _ => rfl) fun _ _ _ _ => rfl

end Dutiful

/-! ## Writing -/

/-- A program that owes nothing may store any row, which is owed then if it is terminal. -/
theorem Duty.lets (job : Job) : (Duty.rule job).Lets .clear (fun _ => True) .of where
  now _ := ⟨.plain _ _ rfl, rfl⟩
  update _ _ _ _ := ⟨.plain _ _ rfl, rfl⟩
  stores tx row _ := ⟨.commits tx row, rfl⟩

theorem Duty.insert {tx : Nat} {row : Execution}
    {post : Except Failure (Response (.insert tx row)) → Noted Duty → Prop}
    (unwritten : Noted.writes ⟨opened, Duty.clear⟩ tx = [])
    (declined : ∀ refusal, post (.ok (.ok (.error refusal))) ⟨opened, .clear⟩)
    (accepted : ∀ opened, Noted.writes ⟨opened, Duty.clear⟩ tx = [⟨row, none⟩] →
      post (.ok (.ok (.ok ()))) ⟨opened, .clear⟩) :
    Ensures (Duty.contract job) post (Action.ask (.insert tx row)) ⟨opened, .clear⟩ := by
  refine Ensures.unnoted (fun _ _ => rfl) (fun _ => .plain _ _ rfl) (fun _ => rfl) ?_
  rintro rows answer s' - ⟨rfl, rfl⟩
  have empty : MemoryStore.writes ⟨rows, opened⟩ tx = [] := unwritten
  rw [MemoryStore.insert]
  split
  · exact declined _
  · rw [empty]
    refine accepted _ ?_
    show Noted.writes ⟨opened.set tx (PendingWrites.add [] _), Duty.clear⟩ tx = _
    rw [Ensures.writes_set, add_nil]

/-! ## Reporting -/

/-- A terminal row is reported to the end. -/
theorem report_pays (row : Execution) :
    Ensures (Duty.contract job) (fun _ s => s.note = .clear) (Engine.report row)
      ⟨opened, .owes row⟩ := by
  have told (duty : Duty) (opened : Numbered PendingWrites)
      (allowed : duty.Allows job (.completed row) []) (entry : LogEntry) :
      Ensures (Duty.contract job) (fun _ s => s.note = .clear)
        (do
          Action.log entry
          Action.ask (.completed row)) ⟨opened, duty⟩ := by
    refine Ensures.bind (Ensures.line (Ensures.noted ?_))
    rintro rows answer s' - rfl
    exact ⟨allowed, by cases duty <;> rfl⟩
  by_cases failed : row.status = .failed
  · have alarms : Ensures (Duty.contract job) (fun _ s => s.note = .clear) (Engine.report row)
        ⟨opened, .owes row⟩ := by
      rw [Engine.report, if_pos failed]
      refine Ensures.bind (Ensures.noted ?_)
      rintro rows answer s' - rfl
      exact ⟨.alerts row failed, told (.alarmed row) _ (.completesFailed row) _⟩
    exact alarms
  · rw [Engine.report, if_neg failed]
    exact told (.owes row) _ (.completes row failed) _

theorem finish_pays (written : Option Execution) (onSuccess : Advanced) :
    Ensures (Duty.contract job) (fun _ s => s.note = .clear) (Engine.finish written onSuccess)
      ⟨opened, written.elim .clear .of⟩ := by
  cases written with
  | none => rfl
  | some row =>
    rw [Engine.finish, Option.elim, Duty.of]
    split
    · refine Ensures.bind ((report_pays row).mono ?_)
      rintro (failure | value) s paid <;> exact paid
    · rfl

theorem settle_dutiful (base : Execution) (t : Transition) (onSuccess : Advanced) :
    Dutiful job (Engine.settle base t onSuccess) := by
  intro opened
  have stores : Ensures (Duty.contract job) (fun r s => s.Of .clear (fun _ => True) Duty.of r)
      (Engine.persist base t) ⟨opened, .clear⟩ :=
    Ensures.persists (Duty.lets job) (fun _ => True) (fun _ _ _ _ _ _ _ => trivial)
      (fun _ _ _ _ _ _ => trivial) _ trivial
  refine Ensures.bind (stores.mono ?_)
  rintro (failure | _ | row) ⟨opened', duty⟩ noted
  · exact noted
  · cases noted
    exact finish_pays none onSuccess
  · cases noted.1
    exact finish_pays (some row) onSuccess

/-! ## Moves -/

theorem invoke_dutiful (d : SagaDefinition) (row : Execution) (step : String) (phase : Phase) :
    Dutiful job (Engine.invoke d row step phase) := by
  rw [Engine.invoke]
  split
  · exact .done _
  · refine .bind (.ask rfl fun _ _ => rfl) fun span => ?_
    refine .bind (.ask rfl fun _ _ => rfl) fun reply => ?_
    have closes : Dutiful job (do
        Action.log (.debug (Engine.returnedLine phase)
          [.execution row.id, .text "step" step, .text "outcome" reply.result.outcome.label])
        Action.ask (.closeSpan span)
        return reply.result) :=
      .bind (.log _) fun _ => .bind (.ask rfl fun _ _ => rfl) fun _ => .done _
    dsimp only
    split
    · exact .bind (.ask rfl fun _ _ => rfl) fun _ => closes
    · exact closes

theorem retryLater_dutiful (d : SagaDefinition) (row : Execution) (step message line : String) :
    Dutiful job (Engine.retryLater d row step message line) :=
  .bind (.log _) fun _ => settle_dutiful _ _ _

theorem executeStep_dutiful (d : SagaDefinition) (row : Execution) :
    Dutiful job (Engine.executeStep d row) := by
  refine .bind (.ofExcept _) fun step => ?_
  refine .bind (invoke_dutiful d row step .execute) fun result => ?_
  split
  · exact settle_dutiful _ _ _
  · dsimp only
    split
    · exact .bind (.log _) fun _ => settle_dutiful _ _ _
    · exact retryLater_dutiful _ _ _ _ _
  · exact .bind (.log _) fun _ => settle_dutiful _ _ _
  · exact .done _

theorem undoStep_dutiful (d : SagaDefinition) (row : Execution) :
    Dutiful job (Engine.undoStep d row) := by
  refine .bind (.ofExcept _) fun step => ?_
  refine .bind (invoke_dutiful d row step .compensate) fun result => ?_
  dsimp only
  split
  · exact settle_dutiful _ _ _
  · split
    · exact retryLater_dutiful _ _ _ _ _
    · exact .bind (.log _) fun _ => settle_dutiful _ _ _

theorem advanceHeld_dutiful (d : SagaDefinition) (x : String) :
    Dutiful job (Engine.advanceHeld d x) := by
  refine .bind (.status x) fun row => ?_
  split
  · exact settle_dutiful _ _ _
  · rw [Engine.stepForward]
    split
    · exact .bind (.log _) fun _ => settle_dutiful _ _ _
    · split
      · exact settle_dutiful _ _ _
      · exact executeStep_dutiful d row
  · rw [Engine.stepBackward]
    split
    · exact settle_dutiful _ _ _
    · exact undoStep_dutiful d row
  · exact .done _

theorem advance_dutiful (e : Engine) (x : String) : Dutiful job (e.advance x) := by
  refine .bind (.status x) fun seen => ?_
  split
  · exact .done _
  · refine .bind (.ofExcept _) fun d => ?_
    refine .bind (.ask rfl fun _ _ => rfl) fun lease => ?_
    split
    · exact .bind (.log _) fun _ => .done _
    · exact .ensuring (advanceHeld_dutiful d x) (.ask rfl fun _ _ => rfl)

/-! ## Operations -/

theorem drive_dutiful (e : Engine) (x : String) : Dutiful job (e.drive x) := by
  have moves (n : Nat) : Dutiful job (e.driveWithin x n) := by
    induction n with
    | zero => exact .failed _
    | succ n ih =>
      refine .bind (advance_dutiful e x) fun advanced => ?_
      split
      · exact ih
      · exact .bind (.ask rfl fun _ _ => rfl) fun _ => ih
      · exact .done _
  exact .bind (moves _) fun _ => .status x

theorem resume_dutiful (e : Engine) (x : String) : Dutiful job (e.resume x) := by
  refine .bind (.status x) fun row => ?_
  split
  · exact .log _
  · refine .bind (.ofExcept _) fun _ => ?_
    refine .bind (.log _) fun _ => ?_
    refine .bind (.ask rfl fun _ _ => rfl) fun taken => ?_
    split
    · exact .done _
    · exact .bind (drive_dutiful e x) fun _ => .done _

theorem start_dutiful (e : Engine) (sagaType : String) (context : Context) :
    Dutiful job (e.start sagaType context) := by
  refine .bind (.ofExcept _) fun d => ?_
  refine .bind (.ask rfl fun _ _ => rfl) fun id => ?_
  refine .bind (.ask rfl fun _ _ => rfl) fun now => ?_
  refine .bind ?_ fun _ => .bind (.log _) fun _ => .bind (.ask rfl fun _ _ => rfl) fun _ => .done _
  intro opened
  apply Ensures.within
  intro tx opened unwritten
  refine Ensures.bind (Duty.insert unwritten ?_ ?_)
  · intro refusal _
    rfl
  · intro opened₁ pending
    refine Ensures.bind (Ensures.ofExcept ?_)
    refine Ensures.bind (Ensures.commits (Duty.lets job) trivial pending ?_ ?_)
    · intro failure opened₂ _
      rfl
    · intro opened₂ _
      rfl

theorem recordCancel_dutiful (x : String) {row : Execution}
    (active : row.status.isTerminal = false) : Dutiful job (Engine.recordCancel x row) := by
  refine .bind (.ask rfl fun _ _ => rfl) fun now => ?_
  intro opened
  apply Ensures.within
  intro tx opened unwritten
  refine Ensures.bind (Ensures.updates ((Duty.lets job).update _ _ _) unwritten ?_ ?_)
  · intro refusal
    refine Ensures.bind (Ensures.ofExcept ?_)
    show Ensures _ _ (if refusal.code = .conflict then _ else _) _
    split
    · intro _
      rfl
    · intro _
      rfl
  · intro version opened₁ w written pending
    refine Ensures.bind (Ensures.ofExcept ?_)
    refine Ensures.bind (Ensures.bind (Ensures.commits (Duty.lets job) trivial pending ?_ ?_))
    · intro failure opened₂ _
      rfl
    · intro opened₂
      have unowed : Duty.of w.row = .clear := by
        rw [written, Duty.of]
        exact if_neg (by simp [active])
      rw [unowed]
      refine Ensures.ofExcept (Ensures.bind (Ensures.line ?_))
      intro _
      rfl

theorem cancelWithin_dutiful (x : String) (tries : Nat) :
    Dutiful job (Engine.cancelWithin x tries) := by
  induction tries with
  | zero => exact .failed _
  | succ tries ih =>
    refine .bind (.status x) fun row => ?_
    split
    · exact .failed _
    · rename_i active
      split
      · exact .done _
      · have unfinished : row.status.isTerminal = false := by
          by_cases started : row.status = .started
          · rw [started]
            rfl
          · by_cases running : row.status = .inProgress
            · rw [running]
              rfl
            · exact absurd ⟨started, running⟩ active
        refine .bind (recordCancel_dutiful x unfinished) fun recorded => ?_
        split
        · exact .done _
        · exact ih

theorem operation_dutiful (e : Engine) (operation : Operation) :
    Dutiful job (operation.program e) := by
  cases operation with
  | start sagaType context => exact .bind (start_dutiful e sagaType context) fun _ => .done _
  | advance x => exact .bind (advance_dutiful e x) fun _ => .done _
  | drive x => exact .bind (drive_dutiful e x) fun _ => .done _
  | resume x => exact .bind (resume_dutiful e x) fun _ => .done _
  | cancel x => exact .bind (cancelWithin_dutiful x _) fun _ => .done _

/-! ## Sweeps -/

/-- A sweep alerts executions that are not finished, and leaves every other report to the
operations that it runs. -/
theorem handleAll_dutiful (e : Engine) (o : RecoveryOptions) (now : Nat) (rows : List Execution)
    (unfinished : ∀ row ∈ rows, row.status.isTerminal = false) (left : Nat) (stats : SweepStats) :
    Dutiful (.sweep o now) (Sweep.handleAll e o now rows left stats) := by
  induction rows generalizing left stats with
  | nil => exact .done _
  | cons row rest ih =>
    have others := ih fun other inside => unfinished other (List.mem_cons_of_mem _ inside)
    cases left with
    | zero => exact .done _
    | succ left =>
      refine .bind (.ask rfl fun _ _ => rfl) fun alerted => ?_
      split
      · exact others _ _
      · refine .bind ?_ fun stats => others left stats
        rw [Sweep.handle]
        split
        · refine .bind (.ask rfl fun _ _ => rfl) fun _ => ?_
          refine .bind ?_ fun _ => .done _
          intro opened
          apply Ensures.noted
          rintro rows answer s' - rfl
          exact ⟨.overdue o now row rfl (unfinished row List.mem_cons_self), rfl⟩
        · refine .bind (resume_dutiful e row.id).attempt fun result => ?_
          split
          · exact .done _
          · exact .bind (.log _) fun _ => .done _

theorem sweep_dutiful (e : Engine) (o : RecoveryOptions) (now : Nat) :
    Dutiful (.sweep o now) (Sweep.once e o now) := by
  refine .bind (.ask rfl fun _ _ => rfl) fun alerted => ?_
  intro opened
  refine Ensures.bind (Ensures.stale ?_)
  intro found opened' listed
  have unfinished (row : Execution) (inside : row ∈ found) : row.status.isTerminal = false := by
    have status := listed row inside
    simp only [Sweep.query, Sweep.statuses, List.mem_cons, List.not_mem_nil, or_false] at status
    rcases status with status | status | status <;> rw [status] <;> rfl
  refine Dutiful.bind (handleAll_dutiful e o now found unfinished _ _) (fun stats => ?_) opened'
  dsimp only
  split
  · exact .bind (.log _) fun _ => .done _
  · exact .done _

/-- Every job reports every terminal row that it commits. -/
theorem job_dutiful (e : Engine) (job : Job) : Dutiful job (job.program e) := by
  cases job with
  | run operation => exact .bind (operation_dutiful e operation) fun _ => .done _
  | sweep options now => exact .bind (sweep_dutiful e options now) fun _ => .done _

end

end SagaEngine
