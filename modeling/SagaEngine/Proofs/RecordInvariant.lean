import SagaEngine.Proofs.Cluster
/-!
# What every committed row satisfies

The index is in the range of the status, the attempts are within the budget, the time
of completion is set with the terminal status, the origin is that of the start, the
version counts the writes, and every change of status is an allowed one, whatever
operations run at once. Main statement: `reachable_records_invariant`.
-/

namespace SagaEngine

/-- The time of completion is that of the last update, once there is one. -/
structure Stamped (row : Execution) : Prop where
  unfinished : row.status.isTerminal = false → row.completedAt = 0
  finished : row.status.isTerminal = true → row.completedAt = row.updatedAt

/-- What a committed row of an execution satisfies, given the row that it started with. -/
structure RowInvariant (d : SagaDefinition) (first row : Execution) : Prop extends Stamped row where
  started : row.status = .started → row.stepIndex = 0
  inProgress : row.status = .inProgress → 0 ≤ row.stepIndex ∧ row.stepIndex < row.totalSteps
  compensating : row.status = .compensating → -1 ≤ row.stepIndex ∧ row.stepIndex < row.totalSteps
  completed : row.status = .completed → row.stepIndex = row.totalSteps
  compensated : row.status = .compensated → row.stepIndex = -1
  failed : row.status = .failed → 0 ≤ row.stepIndex ∧ row.stepIndex < row.totalSteps
  left : row.status ≠ .failed → row.retryCount < d.retry.maxAttempts
  spent : row.status = .failed → 1 ≤ row.retryCount ∧ row.retryCount ≤ d.retry.maxAttempts
  origin : row.origin = first.origin

/-- The row that a start of an execution committed. -/
def Journal.StartedWith (j : Journal) (x : String) (d : SagaDefinition) (first : Execution) :
    Prop :=
  ∃ ev ∈ j, ∃ sagaType context now, ev.actor.operation = .start sagaType context ∧
    ev.installed = [first] ∧ first = Engine.newRow x d sagaType context now

section

variable {e : Engine} {σ : Cluster} {j : Journal} {x : String} {d : SagaDefinition}
  {row first old new : Execution} {rows newer older : List Execution} {calls : List CallMade}

/-! ## Rows of a single owner -/

theorem Stamped.marked (stamped : Stamped row)
    (active : row.status = .started ∨ row.status = .inProgress) (now : Nat) :
    Stamped ((row.marked now).replacing row) := by
  have open_ : row.status.isTerminal = false := by
    rcases active with status | status <;> rw [status] <;> rfl
  refine ⟨stamped.unfinished, ?_⟩
  intro (closed : row.status.isTerminal = true)
  rw [open_] at closed
  cases closed

theorem Stores.stamped {cancelSeen : Bool} {made : List CallMade} {t : Transition}
    {changed : Execution} (stores : Stores d cancelSeen row made t changed) (stamped : Stamped row)
    (now : Nat) : Stamped ((changed.stamped now).replacing row) := by
  have frame := stores.frame
  simp only [Execution.frame, Execution.Frame.mk.injEq] at frame
  have completedAt := frame.2.2.2.2.2.2.1
  have before : row.completedAt = 0 := stamped.unfinished stores.move.not_isTerminal
  constructor
  · intro (unfinished : changed.status.isTerminal = false)
    simp [Execution.replacing, Execution.stamped, unfinished, completedAt, before]
  · intro (finished : changed.status.isTerminal = true)
    simp [Execution.replacing, Execution.stamped, finished]

theorem Lineage.stamped (lineage : Lineage d rows calls) (fits : d.Fits) :
    ∀ row ∈ rows, Stamped row := by
  induction lineage with
  | created id sagaType context now =>
    intro row inside
    cases List.mem_singleton.1 inside
    exact ⟨fun _ => rfl, fun terminal => nomatch terminal⟩
  | cancelled now before active unasked ih =>
    intro row inside
    rcases List.mem_cons.1 inside with rfl | older
    · exact (ih _ List.mem_cons_self).marked active now
    · exact ih row older
  | decided now before read same decides next ih =>
    intro row inside
    rcases List.mem_cons.1 inside with rfl | older
    · have formed := before.wellFormed fits
      have stores := decides.stores_of_next fits (formed _ List.mem_cons_self) (formed _ read)
        same next
      exact stores.stamped (ih _ List.mem_cons_self) now
    · exact ih row older

/-- A row has the status of the row before it or one that may follow. -/
theorem Lineage.canTransition (lineage : Lineage d (newer ++ new :: old :: older) calls)
    (fits : d.Fits) :
    new.status = old.status ∨ old.status.canTransition new.status = true := by
  obtain ⟨calls, recent⟩ := lineage.suffix
  cases recent with
  | cancelled => exact .inl rfl
  | decided now before read same decides next =>
    have formed := before.wellFormed fits
    have stores := decides.stores_of_next fits (formed _ List.mem_cons_self) (formed _ read)
      same next
    exact .inr stores.move.canTransition

theorem WellFormed.rowInvariant (formed : WellFormed d row) (stamped : Stamped row)
    (origin : row.origin = first.origin) : RowInvariant d first row := by
  have place := formed.place
  have steps := formed.steps
  have oneAttempt := d.attempts_pos
  constructor
  case toStamped => exact stamped
  case origin => exact origin
  case left =>
    intro running
    simp only [Execution.position, Position.InPlace] at place
    cases status : row.status with
    | failed => exact absurd status running
    | started =>
      simp only [status] at place
      omega
    | inProgress | compensating =>
      simp only [status] at place
      exact place.2.2
    | completed | compensated =>
      simp only [status] at place
      exact place.2
  all_goals
    intro status
    simp only [Execution.position, Position.InPlace, status] at place
    omega

/-! ## Rows of a lawful journal -/

theorem Journal.StartedWith.mono {ev : Event} (started : j.StartedWith x d first) :
    Journal.StartedWith (ev :: j) x d first := by
  obtain ⟨start, inside, rest⟩ := started
  exact ⟨start, List.mem_cons_of_mem _ inside, rest⟩

/-- The first row of an execution is the one that its start committed. -/
theorem Lawful.startedWith (lawful : Lawful e j) (present : j.history x ≠ []) :
    ∃ d first, (j.history x).getLast? = some first ∧ j.StartedWith x d first ∧
      e.definition first.sagaType = .ok d := by
  induction lawful with
  | start => exact absurd rfl present
  | @next j ev lawful permitted ih =>
    have extended {new old : Execution} {earlier : List Execution}
        (before : j.history x = old :: earlier)
        (history : Journal.history x (ev :: j) = new :: old :: earlier) :
        ∃ d first, (Journal.history x (ev :: j)).getLast? = some first ∧
          Journal.StartedWith (ev :: j) x d first ∧ e.definition first.sagaType = .ok d := by
      obtain ⟨d, first, last, started, known⟩ := ih (by rw [before]; exact List.cons_ne_nil _ _)
      refine ⟨d, first, ?_, started.mono, known⟩
      rw [history, List.getLast?_cons_cons, ← before]
      exact last
    cases permitted.extends lawful x with
    | unchanged _ history _ =>
      obtain ⟨d, first, last, started, known⟩ := ih (history ▸ present)
      exact ⟨d, first, history ▸ last, started.mono, known⟩
    | created me tx sagaType context d now starts known free history =>
      refine ⟨d, Engine.newRow x d sagaType context now, ?_, ⟨_, List.mem_cons_self, sagaType,
        context, now, starts, rfl, rfl⟩, known⟩
      rw [history]
      rfl
    | cancelled me tx old earlier now cancels before active unasked history =>
      exact extended before history
    | decided me tx lease old earlier base changed d t now driven held read unwritten before
        inside known decides same next history =>
      exact extended before history

theorem Lawful.first_row {context : Context} {sagaType : String} (lawful : Lawful e j) (inside : ev ∈ j)
    (starts : ev.actor.operation = .start sagaType context) (installed : first ∈ ev.installed)
    (id : first.id = x) :
    (j.history x).getLast? = some first ∧ first.sagaType = sagaType ∧
      first.context = context.toBlob := by
  obtain ⟨later, before, rfl⟩ := List.append_of_mem inside
  have row : Journal.history x (ev :: before) = [first] ∧ first.sagaType = sagaType ∧
      first.context = context.toBlob := by
    cases lawful.suffix ⟨later, rfl⟩ with
    | next lawful permitted =>
      cases permitted with
      | created me tx sagaType' context' id' d now starts' known free =>
        cases starts'.symm.trans starts
        cases List.mem_singleton.1 installed
        have mine : id' = x := id
        subst mine
        have none : Journal.history id' before = [] := by
          rw [record_eq_head?] at free
          exact List.head?_eq_none_iff.1 free
        refine ⟨?_, rfl, rfl⟩
        rw [history_cons_one (x := id') _ before rfl, none]
        exact if_pos rfl
      | cancelled me y tx old now cancels =>
        have starts : me.operation = .start sagaType context := starts
        rw [cancels] at starts
        cases starts
      | decided me y tx lease old base changed d t now driven =>
        have starts : me.operation = .start sagaType context := starts
        rw [starts] at driven
        cases driven
      | _ => cases installed
  refine ⟨?_, row.2⟩
  obtain ⟨newer, split⟩ := history_suffix x (List.suffix_append later (ev :: before))
  rw [← split, row.1, List.getLast?_concat]

theorem Lineage.origin_eq (lineage : Lineage d rows calls) (fits : d.Fits) (inside : row ∈ rows)
    (inside' : first ∈ rows) : row.origin = first.origin := by
  have ordered := lineage.follows fits
  cases rows with
  | nil => cases inside
  | cons latest earlier =>
    have below := (List.pairwise_cons.1 ordered).1
    have origin (row : Execution) (inside : row ∈ latest :: earlier) :
        latest.origin = row.origin := by
      rcases List.mem_cons.1 inside with rfl | older
      · rfl
      · exact (below row older).origin
    exact (origin row inside).symm.trans (origin first inside')

/-- Whatever operations run at once, every committed row satisfies the row invariant, its version
counts the writes and its status is allowed after the one before; no operation ends in a
move that is not allowed or asks for a step that does not exist. -/
theorem reachable_records_invariant (fits : e.Fits) (reachable : Reachable e σ) (x : String) :
    σ.rows.get? x = (σ.journal.history x).head? ∧
    (σ.journal.history x ≠ [] →
      ∃ d first, e.definition first.sagaType = .ok d ∧ σ.journal.StartedWith x d first ∧
        (σ.journal.history x).getLast? = some first ∧
        ∀ newer row older, σ.journal.history x = newer ++ row :: older →
          RowInvariant d first row ∧ row.version = older.length + 1 ∧
          ∀ old ∈ older.head?, row.status = old.status ∨
            old.status.canTransition row.status = true) ∧
    ∀ task ∈ σ.tasks, task.rest ≠ .failed .stepOutOfRange ∧
      ∀ id source target, task.rest ≠ .failed (.illegalTransition id source target) := by
  have consistent := reachable_consistent reachable fits
  refine ⟨?_, ?_, ?_⟩
  · rw [consistent.rows]
    exact record_eq_head? σ.journal x
  · intro present
    obtain ⟨d, first, last, started, known⟩ := consistent.lawful.startedWith present
    refine ⟨d, first, known, started, last, ?_⟩
    have firstMem : first ∈ σ.journal.history x := List.mem_of_getLast? last
    obtain ⟨d', owned⟩ := consistent.lawful.ownedBy x present
    have same : d' = d :=
      Except.ok.inj ((definitionOf_eq_ok.1 (owned.known first firstMem)).1.symm.trans known)
    subst same
    have small := fits.of_definitionOf (owned.known first firstMem)
    obtain ⟨calls, lineage⟩ := owned.lineage
    intro newer row older split
    have inside : row ∈ σ.journal.history x := by
      rw [split]
      exact List.mem_append_right _ List.mem_cons_self
    refine ⟨(lineage.wellFormed small row inside).rowInvariant (lineage.stamped small row inside)
      (lineage.origin_eq small inside firstMem), ?_, ?_⟩
    · exact (split ▸ lineage).version_eq small
    · intro old isHead
      obtain ⟨oldest, rfl⟩ := List.head?_eq_some_iff.1 isHead
      exact (split ▸ lineage).canTransition small
  · intro task inside
    have ensures := consistent.ensures task inside
    constructor
    · intro failed
      rw [failed] at ensures
      exact nomatch ensures.sane _ rfl
    · intro id source target failed
      rw [failed] at ensures
      exact nomatch ensures.sane _ rfl

/-- The rows of an execution whose step is always busy and that is driven to its end. -/
theorem reachable_records_invariant_busy :
    let σ := Sample.run Sample.busy [.start "order" Dictionary.empty, .drive "x"]
    ∃ d first, Sample.engine.definition first.sagaType = .ok d ∧
      ∀ newer row older, σ.journal.history "x" = newer ++ row :: older →
        RowInvariant d first row ∧ row.version = older.length + 1 := by
  have invariant := reachable_records_invariant Sample.engine_fits
    (Sample.run_reachable Sample.busy [.start "order" Dictionary.empty, .drive "x"]) "x"
  obtain ⟨d, first, known, -, -, rows⟩ := invariant.2.1 (by decide +kernel)
  refine ⟨d, first, known, ?_⟩
  intro newer row older split
  obtain ⟨row, version, -⟩ := rows newer row older split
  exact ⟨row, version⟩

end

end SagaEngine
