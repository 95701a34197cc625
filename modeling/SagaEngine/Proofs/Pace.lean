import SagaEngine.Dispatch.Worker
import SagaEngine.Proofs.Rule
/-!
# The pace of an execution

After an attempt that failed and may be repeated an execution has to wait. What it waits for can
be read off the row that was stored: a program waits for that delay, asleep or in the queue,
before it stores anything else, and for nothing otherwise. So the delays that were waited for are
those of the rows, in order. Main statements: `advance_paced`, `process_paced`, `drive_paced` and
`Account.step`.
-/

namespace SagaEngine

/-- The delay before the next attempt, if the last one failed and may be repeated. -/
def SagaDefinition.owed (d : SagaDefinition) (row : Execution) : Option Int :=
  if row.status.isTerminal ∨ row.retryCount = 0 then none
  else some (d.retry.backoffAfter row.retryCount)

/-- The delay for which a program waits itself, or lets the queue wait. -/
def Request.wait? : Request → Option Int
  | .requeue _ delay => some delay
  | .sleep delay => some delay
  | _ => none

def Advanced.delay? : Advanced → Option Int
  | .retryAfter delay => some delay
  | _ => none

namespace Pace

/-- What is due after a request. -/
def after (d : SagaDefinition) : Option Int → Request → List Execution → Option Int
  | _, .commit _, row :: _ => d.owed row
  | _, .requeue .., _ => none
  | _, .sleep _, _ => none
  | due, _, _ => due

/-- Nothing is stored while a delay is due, and only what is due is waited for. -/
inductive Allows (x : String) : Option Int → Request → List Execution → Prop
  | plain (due : Option Int) (q : Request) (hurried : q.wait? = none) : Allows x due q []
  | commits (tx : Nat) (row : Execution) (id : row.id = x) : Allows x none (.commit tx) [row]
  | waits (delay : Int) (q : Request) (waits : q.wait? = some delay) : Allows x (some delay) q []

theorem after_plain (d : SagaDefinition) (due : Option Int) {q : Request}
    (hurried : q.wait? = none) : after d due q [] = due := by
  cases q with
  | requeue | sleep => cases hurried
  | _ => rfl

theorem after_waits (d : SagaDefinition) (due : Option Int) {q : Request} {delay : Int}
    (waits : q.wait? = some delay) : after d due q [] = none := by
  cases q with
  | requeue | sleep => rfl
  | _ => cases waits

theorem hurried_of_isRead {q : Request} (read : q.isRead = true) : q.wait? = none := by
  cases q <;> first | rfl | cases read

def rule (d : SagaDefinition) (x : String) : Rule (Option Int) where
  after due q _ installed := after d due q installed
  allows due q _ installed := Allows x due q installed
  after_read due _ _ read := after_plain d due (hurried_of_isRead read)
  allows_read due q _ read := .plain due q (hurried_of_isRead read)

/-- The stored row of the execution is one that the definition can be applied to. -/
def Possible (e : Engine) (d : SagaDefinition) (x : String) (rows : Dictionary Execution) : Prop :=
  ∀ row, rows.get? x = some row → row.id = x ∧ e.definitionOf row = .ok d ∧ WellFormed d row

abbrev contract (e : Engine) (d : SagaDefinition) (x : String) :
    Contract Request Response (Noted (Option Int)) := (rule d x).contract (Possible e d x)

end Pace

/-- The program starts when nothing is due, and at its end that is due which its value says. -/
def Paced {α : Type} (e : Engine) (d : SagaDefinition) (x : String) (due : α → Option Int)
    (p : Action α) : Prop :=
  ∀ opened, Ensures (Pace.contract e d x) (fun r s => s.note = r.toOption.bind due) p
    ⟨opened, none⟩

/-- The program leaves nothing due. -/
abbrev Calm {α : Type} (e : Engine) (d : SagaDefinition) (x : String) (p : Action α) : Prop :=
  Paced e d x (fun _ => none) p

section

variable {e : Engine} {d : SagaDefinition} {x : String} {α β : Type} {row base changed : Execution}
  {due : Option Int} {opened : Numbered PendingWrites} {t : Transition}

theorem SagaDefinition.owed_of_terminal (terminal : row.status.isTerminal = true) :
    d.owed row = none := if_pos (.inl terminal)

theorem SagaDefinition.owed_of_zero (zero : row.retryCount = 0) : d.owed row = none :=
  if_pos (.inr zero)

/-! ## Programs that keep the pace -/

theorem Pace.ask {q : Request} {post : Except Failure (Response q) → Noted (Option Int) → Prop}
    (hurried : q.wait? = none) (nothing : ∀ s answer, installs s q answer = [])
    (answered : ∀ answer opened, post (.ok answer) ⟨opened, due⟩) :
    Ensures (Pace.contract e d x) post (Action.ask q) ⟨opened, due⟩ :=
  Ensures.ignored (fun _ => ⟨.plain _ _ hurried, Pace.after_plain d due hurried⟩) nothing answered

theorem Pace.wait {q : Request} {delay : Int}
    {post : Except Failure (Response q) → Noted (Option Int) → Prop} (waits : q.wait? = some delay)
    (waited : ∀ answer opened, post (.ok answer) ⟨opened, none⟩) :
    Ensures (Pace.contract e d x) post (Action.ask q) ⟨opened, some delay⟩ := by
  apply Ensures.noted
  intro rows answer s' _ _
  have nothing : installs ⟨rows, opened⟩ q answer = [] := by
    cases q <;> first | rfl | cases waits
  have after : (rule d x).after (some delay) q answer [] = none := after_waits d _ waits
  rw [nothing, after]
  exact ⟨.waits delay q waits, waited answer _⟩

namespace Paced

variable {dues : α → Option Int}

theorem done (value : α) (nothing : dues value = none) :
    Paced e d x dues (Program.done value) := fun _ => nothing.symm

theorem failed (failure : Failure) : Paced e d x dues (Program.failed failure) := fun _ => rfl

theorem ofExcept (value : Except Failure α) : Calm e d x (Program.ofExcept value) := by
  cases value with
  | ok value => exact done value rfl
  | error failure => exact failed failure

theorem ask {q : Request} (hurried : q.wait? = none)
    (nothing : ∀ s answer, installs s q answer = []) : Calm e d x (Action.ask q) :=
  fun _ => Pace.ask hurried nothing fun _ _ => rfl

theorem log (entry : LogEntry) : Calm e d x (Action.log entry) := ask rfl fun _ _ => rfl

theorem bind {p : Action β} {f : β → Action α} (first : Calm e d x p)
    (rest : ∀ value, Paced e d x dues (f value)) : Paced e d x dues (p >>= f) := by
  intro opened
  refine Ensures.bind ((first opened).mono ?_)
  rintro (failure | value) ⟨opened', due⟩ (rfl : due = none)
  · rfl
  · exact rest value opened'

theorem releasing {p : Action α} (first : Paced e d x dues p) (lease : Lease) :
    Paced e d x dues (p.ensuring (Action.ask (.release lease))) := by
  intro opened
  refine Ensures.ensuring ((first opened).mono ?_)
  rintro r ⟨opened', due⟩ held
  exact Pace.ask rfl (fun _ _ => rfl) fun _ _ => held

theorem status {f : Execution → Action α}
    (rest : ∀ row, row.id = x → e.definitionOf row = .ok d → WellFormed d row →
      Paced e d x dues (f row)) : Paced e d x dues (Engine.getStatus x >>= f) := by
  intro opened
  refine Ensures.bind (Ensures.status ?_ ?_)
  · intro rows row opened' may found
    obtain ⟨id, known, formed⟩ := may row found
    exact rest row id known formed opened'
  · intro rows opened' _ _
    rfl

end Paced

/-! ## Storing a transition -/

theorem Pace.lets (kind : Execution → Prop) (mine : ∀ row, kind row → row.id = x) :
    (Pace.rule d x).Lets none kind d.owed where
  now _ := ⟨.plain _ _ rfl, rfl⟩
  update _ _ _ _ := ⟨.plain _ _ rfl, rfl⟩
  stores tx row may := ⟨.commits tx row (mine row may), rfl⟩

theorem report_calm (row : Execution) : Calm e d x (Engine.report row) := by
  have told (entry : LogEntry) : Calm e d x (do
      Action.log entry
      Action.ask (.completed row)) := .bind (.log _) fun _ => .ask rfl fun _ _ => rfl
  by_cases failed : row.status = .failed
  · rw [Engine.report, if_pos failed]
    exact .bind (.ask rfl fun _ _ => rfl) fun _ => told _
  · rw [Engine.report, if_neg failed]
    exact told _

/-- What is due after a transition was stored is what the advance came to, as long as that is so
for every row with the same progress. -/
theorem settle_paced (id : base.id = x) (onSuccess : Advanced)
    (owes : ∀ row changed, row.progress = base.progress → t.next row = .ok changed →
      changed.status.isTerminal = false → d.owed changed = onSuccess.delay?) :
    Paced e d x Advanced.delay? (Engine.settle base t onSuccess) := by
  intro opened
  have stores : Ensures (Pace.contract e d x)
      (fun r s => s.Of none (fun row => row.id = x ∧
        (row.status.isTerminal = false → d.owed row = onSuccess.delay?)) d.owed r)
      (Engine.persist base t) ⟨opened, none⟩ := by
    refine Ensures.persists (Pace.lets _ fun row may => may.1)
      (fun row => row.id = x ∧ row.progress = base.progress) ?_ ?_ _ ⟨id, rfl⟩
    · rintro row rows fresh ⟨mine, same⟩ may found level
      exact ⟨(may fresh (mine ▸ found)).1, level.trans same⟩
    · rintro row changed now version ⟨mine, same⟩ next
      have kept : changed.id = row.id := congrArg Execution.Frame.id (next_frame next)
      exact ⟨kept.trans mine, owes row changed same next⟩
  refine Ensures.bind (stores.mono ?_)
  rintro (failure | _ | row) ⟨opened', due⟩ noted
  · exact noted
  · exact noted
  · obtain ⟨rfl : due = d.owed row, -, owed⟩ := noted
    dsimp only [Engine.finish]
    split
    · rename_i terminal
      rw [SagaDefinition.owed_of_terminal terminal]
      exact Paced.bind (report_calm row) (fun _ => .done _ rfl) opened'
    · rename_i active
      exact owed (by simpa using active)

/-- A transition that is neither the first one nor a failed attempt leaves no failed attempts
behind, or nothing to be done. -/
theorem owed_of_next (next : t.next row = .ok changed) (first : t ≠ .begun)
    (attempt : ∀ attempts message, t ≠ .attemptFailed attempts message) :
    d.owed changed = none := by
  have applied := apply_of_next next
  cases t with
  | begun => exact absurd rfl first
  | attemptFailed attempts message => exact absurd rfl (attempt attempts message)
  | completed | undoneAll | gaveUp =>
    cases applied
    exact SagaDefinition.owed_of_terminal rfl
  | stepDone fragment | stepUndone fragment =>
    simp only [Transition.apply] at applied
    cases merged : Transition.mergedBlob row.context fragment <;> rw [merged] at applied <;>
      cases applied
    exact SagaDefinition.owed_of_zero rfl
  | _ =>
    cases applied
    exact SagaDefinition.owed_of_zero rfl

theorem progress_paced (id : base.id = x) (first : t ≠ .begun)
    (attempt : ∀ attempts message, t ≠ .attemptFailed attempts message) :
    Paced e d x Advanced.delay? (Engine.settle base t) :=
  settle_paced id .progressed fun _ _ _ next _ => owed_of_next next first attempt

theorem begun_paced (id : base.id = x) (formed : WellFormed d base)
    (status : base.status = .started) :
    Paced e d x Advanced.delay? (Engine.settle base .begun) := by
  refine settle_paced id .progressed fun row changed same next _ => ?_
  have place := formed.place
  simp only [Execution.position, status, Position.InPlace] at place
  cases apply_of_next next
  have retries : row.retryCount = base.retryCount := congrArg Execution.Progress.retryCount same
  exact SagaDefinition.owed_of_zero (retries.trans place.2)

theorem retryLater_paced (id : base.id = x) (step message line : String)
    (counts : Engine.attemptsAfter base ≠ 0) (active : base.status.isTerminal = false) :
    Paced e d x Advanced.delay? (Engine.retryLater d base step message line) := by
  refine .bind (.log _) fun _ => settle_paced id _ fun row changed same next _ => ?_
  cases apply_of_next next
  have status : row.status = base.status := congrArg Execution.Progress.status same
  simp [SagaDefinition.owed, Advanced.delay?, status, active, counts]

/-! ## One advance -/

theorem invoke_calm (row : Execution) (step : String) (phase : Phase) :
    Calm e d x (Engine.invoke d row step phase) := by
  rw [Engine.invoke]
  split
  · exact .done _ rfl
  · refine .bind (.ask rfl fun _ _ => rfl) fun span =>
      .bind (.ask rfl fun _ _ => rfl) fun reply => ?_
    have closes : Calm e d x (do
        Action.log (.debug (Engine.returnedLine phase)
          [.execution row.id, .text "step" step, .text "outcome" reply.result.outcome.label])
        Action.ask (.closeSpan span)
        return reply.result) :=
      .bind (.log _) fun _ => .bind (.ask rfl fun _ _ => rfl) fun _ => .done _ rfl
    dsimp only
    split
    · exact .bind (.ask rfl fun _ _ => rfl) fun _ => closes
    · exact closes

theorem WellFormed.counts (formed : WellFormed d base) (fits : d.Fits)
    (running : base.status = .inProgress ∨ base.status = .compensating) :
    Engine.attemptsAfter base ≠ 0 := by
  have place := formed.place
  have room := fits.attempts
  have left : base.retryCount < d.retry.maxAttempts := by
    rcases running with status | status <;>
      simp only [Execution.position, status, Position.InPlace] at place <;> exact place.2.2
  rw [attemptsAfter_eq (by omega)]
  exact Nat.succ_ne_zero _

theorem executeStep_paced (id : base.id = x) (formed : WellFormed d base) (fits : d.Fits)
    (status : base.status = .inProgress) :
    Paced e d x Advanced.delay? (Engine.executeStep d base) := by
  refine .bind (.ofExcept _) fun step => .bind (invoke_calm base step .execute) fun result => ?_
  split
  · exact progress_paced id nofun nofun
  · dsimp only
    split
    · exact .bind (.log _) fun _ => progress_paced id nofun nofun
    · exact retryLater_paced id _ _ _ (formed.counts fits (.inl status)) (by rw [status]; rfl)
  · exact .bind (.log _) fun _ => progress_paced id nofun nofun
  · exact .done _ rfl

theorem undoStep_paced (id : base.id = x) (formed : WellFormed d base) (fits : d.Fits)
    (status : base.status = .compensating) :
    Paced e d x Advanced.delay? (Engine.undoStep d base) := by
  refine .bind (.ofExcept _) fun step => .bind (invoke_calm base step .compensate) fun result => ?_
  dsimp only
  split
  · exact progress_paced id nofun nofun
  · split
    · exact retryLater_paced id _ _ _ (formed.counts fits (.inr status)) (by rw [status]; rfl)
    · exact .bind (.log _) fun _ => progress_paced id nofun nofun

theorem advanceHeld_paced (fits : d.Fits) :
    Paced e d x Advanced.delay? (Engine.advanceHeld d x) := by
  refine .status fun row id _ formed => ?_
  cases status : row.status with
  | started => exact begun_paced id formed status
  | inProgress =>
    show Paced e d x _ (Engine.stepForward d row)
    rw [Engine.stepForward]
    split
    · exact .bind (.log _) fun _ => progress_paced id nofun nofun
    · split
      · exact progress_paced id nofun nofun
      · exact executeStep_paced id formed fits status
  | compensating =>
    show Paced e d x _ (Engine.stepBackward d row)
    rw [Engine.stepBackward]
    split
    · exact progress_paced id nofun nofun
    · exact undoStep_paced id formed fits status
  | compensated | completed | failed => exact .done _ rfl

/-- An advance comes to a delay if that is due, and to something else if nothing is. -/
theorem advance_paced (fits : d.Fits) : Paced e d x Advanced.delay? (e.advance x) := by
  refine .status fun seen _ known _ => ?_
  split
  · exact .done _ rfl
  · rw [known]
    intro opened
    refine Ensures.bind (Ensures.ofExcept ?_)
    refine Paced.bind (.ask rfl fun _ _ => rfl) (fun lease => ?_) opened
    cases lease with
    | none => exact .bind (.log _) fun _ => .done _ rfl
    | some lease => exact (advanceHeld_paced fits).releasing lease

/-! ## Workers and drives -/

theorem process_paced (fits : d.Fits) : Calm e d x (Worker.process e x) := by
  have within (moves : Nat) (opened : Numbered PendingWrites) : Ensures (Pace.contract e d x)
      (fun _ s => s.note = none) (Worker.advanceWithin e x moves) ⟨opened, none⟩ := by
    induction moves generalizing opened with
    | zero => rfl
    | succ moves ih =>
      refine Ensures.bind ((advance_paced fits opened).mono ?_)
      rintro (failure | advanced) ⟨opened', due⟩ (paced : due = _)
      · exact paced
      · cases advanced with
        | progressed =>
          cases paced
          exact ih opened'
        | retryAfter delay =>
          cases paced
          exact Ensures.bind (Pace.wait rfl fun _ _ => rfl)
        | terminal => exact paced
        | abandoned => exact paced
  intro opened
  refine Ensures.bind (Ensures.attempt ((within e.patience opened).mono ?_))
  rintro r ⟨opened', due⟩ (rfl : due = none)
  have finishes : Calm e d x (Action.ask (.finished x)) := .ask rfl fun _ _ => rfl
  rcases r with failure | handed
  · exact Paced.bind (.log _) (fun _ => finishes) opened'
  · cases handed with
    | true => rfl
    | false => exact finishes opened'

theorem drive_paced (fits : d.Fits) : Calm e d x (e.drive x) := by
  have within (moves : Nat) : Calm e d x (e.driveWithin x moves) := by
    induction moves with
    | zero => exact .failed _
    | succ moves ih =>
      intro opened
      refine Ensures.bind ((advance_paced fits opened).mono ?_)
      rintro (failure | advanced) ⟨opened', due⟩ (paced : due = _)
      · exact paced
      · cases advanced with
        | progressed =>
          cases paced
          exact ih opened'
        | retryAfter delay =>
          cases paced
          exact Ensures.bind (Pace.wait rfl fun _ opened => ih opened)
        | terminal => exact paced
        | abandoned => exact paced
  refine .bind (within _) fun _ => ?_
  rw [← bind_pure (Engine.getStatus x)]
  exact .status fun row _ _ _ => .done row rfl

/-- In a lawful journal every row of an execution is one that its definition can be applied to. -/
theorem Pace.possible {j : Journal} (lawful : Lawful e j) (fits : e.Fits)
    (known : ∀ row ∈ j.history x, e.definitionOf row = .ok d) : Pace.Possible e d x j.rows := by
  intro row found
  have inside : row ∈ j.history x := mem_history_of_record found
  exact ⟨id_of_mem_history inside, known row inside, (lawful.ownedBy_of_known inside
    (known row inside)).wellFormed (fits.of_definitionOf (known row inside)) inside⟩

/-! ## What was waited for -/

/-- What the rows of an execution owe was waited for, and the rest, which the latest row owes, is
due. -/
structure Account (d : SagaDefinition) (x : String) (j : Journal) (waited : List Int)
    (due : Option Int) : Prop where
  owed : (j.history x).reverse.filterMap d.owed = waited ++ due.toList
  latest : due = none ∨ due = (j.history x).head?.bind d.owed

variable {j j' : Journal} {waited : List Int} {ev : Event}

theorem Account.same (account : Account d x j waited due)
    (history : j'.history x = j.history x) : Account d x j' waited due := by
  refine ⟨?_, ?_⟩ <;> rw [history]
  · exact account.owed
  · exact account.latest

/-- Who neither drives nor cancels the execution adds no row to it but the first one, which owes
nothing. -/
theorem Account.foreign (account : Account d x j waited due) (lawful : Lawful e j)
    (permitted : Permitted e j ev) (undriven : ev.actor.operation.driven? ≠ some x)
    (uncancelled : ev.actor.operation ≠ .cancel x) : Account d x (ev :: j) waited due := by
  cases permitted.extends lawful x with
  | unchanged _ history _ => exact account.same history
  | created me tx sagaType context d' now starts known free history =>
    have nothing := account.owed
    rw [free] at nothing
    obtain ⟨unwaited, undue⟩ := List.append_eq_nil_iff.1 nothing.symm
    obtain rfl : due = none := Option.toList_eq_nil_iff.1 undue
    refine ⟨?_, .inl rfl⟩
    rw [history, unwaited, List.reverse_singleton, List.filterMap_cons,
      SagaDefinition.owed_of_zero rfl]
    rfl
  | cancelled me tx old earlier now cancels => exact absurd cancels uncancelled
  | decided me tx lease old earlier base changed d' t now driven => exact absurd driven undriven

theorem Account.settled (account : Account d x j waited due)
    (ended : ∀ row ∈ (j.history x).head?, row.status.isTerminal = true) :
    due = none := by
  rcases account.latest with none | latest
  · exact none
  · rw [latest]
    cases head : (j.history x).head? with
    | none => rfl
    | some row => exact SagaDefinition.owed_of_terminal (ended row head)

theorem Account.step {post : Except Failure α → Noted (Option Int) → Prop} {q : Request}
    {next : Response q → Action α} {answer : Response q} {rows : Dictionary Execution}
    {s' : MemoryStore} (account : Account d x j waited due) (me : Actor)
    (paced : Ensures (Pace.contract e d x) post (Program.ask q next) ⟨opened, due⟩)
    (may : Pace.Possible e d x rows) (serves : Serves ⟨rows, opened⟩ q answer s') :
    ∃ due', Ensures (Pace.contract e d x) post (next answer) ⟨s'.transactions, due'⟩ ∧
      Account d x (⟨me, q, answer, installs ⟨rows, opened⟩ q answer⟩ :: j)
        (waited ++ q.wait?.toList) due' := by
  obtain ⟨allowed, rest⟩ := paced _ rfl answer _ ⟨rows, s', may, serves, rfl⟩
  refine ⟨_, rest, ?_⟩
  have allowed : Pace.Allows x due q (installs ⟨rows, opened⟩ q answer) := allowed rows
  show Account d x _ _ (Pace.after d due q (installs ⟨rows, opened⟩ q answer))
  -- What is allowed does not depend on how the request came to install its rows.
  generalize installs ⟨rows, opened⟩ q answer = installed at allowed ⊢
  cases allowed with
  | plain due q hurried =>
    rw [Pace.after_plain d due hurried, hurried, Option.toList_none, List.append_nil]
    exact account.same (history_cons_none _ j rfl)
  | commits tx row id =>
    have history := history_cons_one (x := x) ⟨me, .commit tx, answer, [row]⟩ j rfl
    rw [if_pos id] at history
    refine ⟨?_, .inr ?_⟩ <;> rw [history]
    · have owed := account.owed
      rw [Option.toList_none, List.append_nil] at owed
      rw [List.reverse_cons, List.filterMap_append, owed]
      simp [Request.wait?, Pace.after, List.filterMap_cons]
      cases d.owed row <;> rfl
    · rfl
  | waits delay q waits =>
    have history := history_cons_none (x := x) ⟨me, q, answer, []⟩ j rfl
    rw [Pace.after_waits d _ waits, waits]
    refine ⟨?_, .inl rfl⟩
    rw [history, account.owed, Option.toList_none, List.append_nil]

end

end SagaEngine
