import SagaEngine.Proofs.Deeds
/-!
# An unreadable context fails safe

The blob of an execution may be damaged. Its step cannot be called then, in either direction, and
nothing can be merged into its values: the step counts as rejected, and its undo is given up, so
that the execution ends as one that failed, for which an alert is raised. The blob stays what it is.
Main statements: `advances_unreadable` and `unreadable_context_fails_safe`.
-/

namespace SagaEngine

/-- An execution that is at one of its steps, or before the first one, and whose context does not
parse. -/
structure Unreadable (row : Execution) : Prop where
  blob : Context.ofBlob? row.context = none
  place : row.status = .started ∧ row.stepIndex = 0 ∨
    (row.status = .inProgress ∨ row.status = .compensating) ∧
      0 ≤ row.stepIndex ∧ row.stepIndex < row.totalSteps
  unasked : row.cancelRequested = false

/-- Why the undo of a step is given up whose context does not parse. -/
def unreadableReason (step : String) : String :=
  "compensation of " ++ step ++ " failed terminally: " ++ DecodeError.contextBlob.message

/-- The execution failed where it was, with the context that it had. It was written as one that had
neither completed nor been compensated, no step was called, and one alert was raised before its end
was told. -/
structure FailsSafe (step : String) (row last : Execution) (deeds : List Deed) : Prop where
  failed : last.status = .failed
  index : last.stepIndex = row.stepIndex
  context : last.context = row.context
  failedStep : last.failedStep = if row.status = .compensating then row.failedStep else step
  reason : last.lastError = unreadableReason step
  story : ∃ written : List Execution,
    (∀ r ∈ written, r.context = row.context ∧ r.stepIndex = row.stepIndex ∧
      r.status ≠ .completed ∧ r.status ≠ .compensated) ∧
    deeds = written.map .writes ++
      [.alerts ⟨last.id, last.sagaType, Status.failed.name, last.lastError⟩, .completes last]

namespace Execution

/-- The row after the next move of an execution at a step, if its context does not parse. -/
def failing (step : String) (row : Execution) : Execution :=
  match row.status with
  | .started => { row with status := .inProgress }
  | .inProgress => { row with
      status := .compensating
      failedStep := step
      failureReason := DecodeError.contextBlob.message
      retryCount := 0
      lastError := DecodeError.contextBlob.message }
  | _ => { row with
      status := .failed
      retryCount := Engine.attemptsAfter row
      lastError := unreadableReason step }

/-- How many moves an execution has left whose context does not parse. -/
def movesToFailure (row : Execution) : Nat :=
  match row.status with
  | .started => 3
  | .inProgress => 2
  | _ => 1

end Execution

section

variable {σ : Type} {e : Engine} {d : SagaDefinition} {x step : String} {row last : Execution}
  {deeds ds : List Deed} {v v' : Premises} {meant : Prop}

namespace Unreadable

theorem malformed (unreadable : Unreadable row) :
    Context.ofBlob row.context = .error .contextBlob :=
  Context.ofBlob_eq_error_iff.2 ⟨unreadable.blob, rfl⟩

theorem active (unreadable : Unreadable row) : row.status.isTerminal = false := by
  rcases unreadable.place with ⟨status, -⟩ | ⟨status | status, -⟩ <;> rw [status] <;> rfl

/-- There is a step at the index. -/
theorem named (unreadable : Unreadable row) (total : row.totalSteps = d.stepCount) :
    ∃ step, d.stepAt? row.stepIndex = some step := by
  refine Option.isSome_iff_exists.1 ((d.stepAt?_isSome_iff _).2 ?_)
  rcases unreadable.place with ⟨-, first⟩ | ⟨-, low, high⟩
  · have := d.stepCount_pos
    omega
  · omega

theorem failing (unreadable : Unreadable row) (step : String)
    (total : row.totalSteps = d.stepCount) (goesOn : row.status ≠ .compensating) (now : Nat) :
    Unreadable (((row.failing step).stamped now).replacing row) ∧
      (((row.failing step).stamped now).replacing row).movesToFailure + 1 = row.movesToFailure := by
  rcases unreadable.place with ⟨status, first⟩ | ⟨status | status, inside⟩
  · have := d.stepCount_pos
    have positive : (0 : Int) < row.totalSteps := by omega
    refine ⟨⟨?_, .inr ⟨.inl ?_, ?_⟩, ?_⟩, ?_⟩ <;>
      simp [Execution.failing, Execution.movesToFailure, Execution.stamped, Execution.replacing,
        status, first, positive, unreadable.blob, unreadable.unasked]
  · refine ⟨⟨?_, .inr ⟨.inr ?_, ?_⟩, ?_⟩, ?_⟩ <;>
      simp [Execution.failing, Execution.movesToFailure, Execution.stamped, Execution.replacing,
        status, inside, unreadable.blob, unreadable.unasked]
  · exact absurd status goesOn

theorem failing_isTerminal (unreadable : Unreadable row) :
    (row.failing step).status.isTerminal = true ↔ row.status = .compensating := by
  rcases unreadable.place with ⟨status, -⟩ | ⟨status | status, -⟩ <;>
    simp [Execution.failing, status, Status.isTerminal]

end Unreadable

/-! ## What is written -/

theorem failing_origin (now : Nat) :
    (((row.failing step).stamped now).replacing row).origin = row.origin := by
  unfold Execution.failing
  split <;> rfl

theorem failing_place (row : Execution) (step : String) :
    (row.failing step).context = row.context ∧
      (row.failing step).stepIndex = row.stepIndex := by
  unfold Execution.failing
  split <;> exact ⟨rfl, rfl⟩

/-- An undo that was given up is the end. -/
theorem FailsSafe.ofUndo (status : row.status = .compensating) (now : Nat) :
    FailsSafe step row (((row.failing step).stamped now).replacing row)
      (.writes ((row.failing step).stamped now) ::
        (((row.failing step).stamped now).replacing row).reported) := by
  have failing : row.failing step = { row with
      status := .failed
      retryCount := Engine.attemptsAfter row
      lastError := unreadableReason step } := by
    rw [Execution.failing, status]
  rw [failing]
  refine ⟨rfl, rfl, rfl, (if_pos status).symm, rfl, [_], ?_, rfl⟩
  exact List.forall_mem_singleton.2 ⟨rfl, rfl, nofun, nofun⟩

/-- A move before that leaves the place and the context, and names the step. -/
theorem FailsSafe.before (unreadable : Unreadable row) (goesOn : row.status ≠ .compensating)
    (now : Nat)
    (rest : FailsSafe step (((row.failing step).stamped now).replacing row) last deeds) :
    FailsSafe step row last (.writes ((row.failing step).stamped now) :: deeds) := by
  obtain ⟨written, all, rfl⟩ := rest.story
  obtain ⟨context, index⟩ := failing_place row step
  have moved : (row.failing step).status ≠ .completed ∧
      (row.failing step).status ≠ .compensated ∧
      ((row.failing step).status = .compensating → (row.failing step).failedStep = step) := by
    rcases unreadable.place with ⟨status, -⟩ | ⟨status | status, -⟩
    · simp [Execution.failing, status]
    · simp [Execution.failing, status]
    · exact absurd status goesOn
  obtain ⟨uncompleted, uncompensated, names⟩ := moved
  refine ⟨rest.failed, rest.index.trans index, rest.context.trans context, ?_, rest.reason,
    (row.failing step).stamped now :: written, ?_, rfl⟩
  · rw [if_neg goesOn, rest.failedStep]
    split
    · rename_i compensating
      exact names compensating
    · rfl
  · refine List.forall_mem_cons.2 ⟨⟨context, index, uncompleted, uncompensated⟩, ?_⟩
    intro r among
    obtain ⟨same, there, others⟩ := all r among
    exact ⟨same.trans context, there.trans index, others⟩

/-! ## One move -/

namespace Premises

/-- A transition was stored on the row that it was made for, and reported if it was the last. -/
inductive Settled (x : String) (row changed : Execution) (onSuccess : Advanced)
    (s s' : Premises × List Deed) : Except Failure Advanced → Prop
  | intro (now : Nat) (found : s'.1.rows.get? x = some ((changed.stamped now).replacing row))
      (later : Later s.1 s'.1)
      (noted : s'.2 = s.2 ++ .writes (changed.stamped now) ::
        if changed.status.isTerminal then ((changed.stamped now).replacing row).reported else []) :
      Settled x row changed onSuccess s s'
        (.ok (if changed.status.isTerminal then .terminal else onSuccess))

theorem settles_noted {t : Transition} {changed : Execution} {onSuccess : Advanced}
    (found : v.rows.get? x = some row) (next : t.next row = .ok changed) :
    Ensures (noted x meant) (fun r s => Settled x row changed onSuccess (v, ds) s r)
      (Engine.settle row t onSuccess) (v, ds) := by
  have id : changed.id = x := by
    have kept := congrArg Execution.Frame.id (next_frame next)
    exact kept.trans (v.keyed x row found)
  refine Ensures.bind (Ensures.bind (Ensures.ofExcept ?_))
  rw [next]
  have clock : Ensures (terms x meant) (fun r v₁ => (∃ now, r = .ok now) ∧ Rests v v₁)
      (Action.ask .now) v := asksAside rfl fun now _ rests => ⟨⟨now, rfl⟩, rests⟩
  refine Ensures.bind ((clock.quietly (.ask .now)).mono ?_)
  rintro _ ⟨v₁, ds₁⟩ ⟨⟨⟨now, rfl⟩, rests⟩, list⟩
  obtain rfl : ds₁ = ds := list now rfl
  have found₁ : v₁.rows.get? (changed.stamped now).id = some row := by
    rw [rests.rows]
    exact id ▸ found
  refine Ensures.bind (((writesOnce found₁).noting (writeOnce_does row _)).mono ?_)
  rintro _ ⟨v₂, ds₂⟩ ⟨⟨-, rfl, puts⟩ | ⟨differs, -⟩, list₂⟩
  · obtain rfl := list₂ _ rfl
    have found₂ : v₂.rows.get? x = some ((changed.stamped now).replacing row) := by
      rw [show v₂.rows = _ from puts.rows, ← id]
      exact Dictionary.get?_insert_self ..
    have later : Later v v₂ := rests.toLater.trans puts.toLater
    show Ensures (noted x meant) _ (Engine.finish (some ((changed.stamped now).replacing row))
      onSuccess) _
    rw [Engine.finish]
    by_cases terminal : changed.status.isTerminal = true
    · have ends : ((changed.stamped now).replacing row).status.isTerminal = true := terminal
      rw [if_pos ends]
      refine Ensures.bind (((reports _ v₂).noting (report_does _)).mono ?_)
      rintro _ ⟨v₃, ds₃⟩ ⟨⟨rfl, rests₃⟩, list₃⟩
      have settled : Settled x row changed onSuccess (v, ds₁) (v₃, ds₃) _ :=
        .intro now (rests₃.rows ▸ found₂) (later.trans rests₃.toLater)
          (by rw [if_pos terminal, show ds₃ = _ from list₃ () rfl, List.append_assoc]; rfl)
      rwa [if_pos terminal] at settled
    · have goesOn : ¬((changed.stamped now).replacing row).status.isTerminal = true := terminal
      rw [if_neg goesOn]
      have settled : Settled x row changed onSuccess (v, ds₁)
          (v₂, ds₁ ++ [.writes (changed.stamped now)]) _ :=
        .intro now found₂ later (by rw [if_neg terminal])
      rwa [if_neg terminal] at settled
  · exact absurd rfl differs

theorem notesAndSettles_noted {entry : LogEntry} {t : Transition} {changed : Execution}
    {onSuccess : Advanced} (found : v.rows.get? x = some row) (next : t.next row = .ok changed) :
    Ensures (noted x meant) (fun r s => Settled x row changed onSuccess (v, ds) s r)
      (do
        Action.log entry
        Engine.settle row t onSuccess) (v, ds) := by
  have line : Ensures (terms x meant) (fun r v₁ => r = .ok () ∧ Rests v v₁) (Action.log entry) v :=
    writesLine fun _ rests => ⟨rfl, rests⟩
  refine Ensures.bind ((line.quietly (log_does entry)).mono ?_)
  rintro _ ⟨v₁, ds₁⟩ ⟨⟨rfl, rests⟩, list⟩
  obtain rfl : ds₁ = ds := list () rfl
  refine (settles_noted (rests.rows ▸ found) next).mono ?_
  rintro _ s ⟨now, found', later, noted⟩
  exact .intro now found' (rests.toLater.trans later) noted

/-- No step is called under the lease. -/
theorem advancesHeld_unreadable (unreadable : Unreadable row)
    (named : d.stepAt? row.stepIndex = some step) (found : v.rows.get? x = some row) :
    Ensures (noted x meant) (fun r s => Settled x row (row.failing step) .progressed (v, ds) s r)
      (Engine.advanceHeld d x) (v, ds) := by
  refine Ensures.bind (((statuses x x v).quietly (getStatus_does x)).mono ?_)
  rintro r ⟨v₁, ds₁⟩ ⟨⟨rests, seen⟩, list⟩
  rw [found] at seen
  subst seen
  obtain rfl : ds₁ = ds := list row rfl
  have found₁ : v₁.rows.get? x = some row := rests.rows ▸ found
  have since {r : Except Failure Advanced} {s : Premises × List Deed}
      (settled : Settled x row (row.failing step) .progressed (v₁, ds₁) s r) :
      Settled x row (row.failing step) .progressed (v, ds₁) s r := by
    obtain ⟨now, found', later, noted⟩ := settled
    exact .intro now found' (rests.toLater.trans later) noted
  have stepName : Engine.stepName d row.stepIndex = .ok step := by rw [Engine.stepName, named]
  refine Ensures.mono ?_ fun r s => since
  rcases unreadable.place with ⟨status, -⟩ | ⟨status | status, low, high⟩
  · rw [status]
    refine settles_noted found₁ ?_
    simp only [Transition.next, Transition.apply, Execution.failing, status]
    rfl
  · have moves : Engine.stepForward d row = (do
        Action.log (.warn "step failed terminally, compensating"
          [.execution row.id, .text "step" step, .text "reason" DecodeError.contextBlob.message])
        Engine.settle row (.rejected step DecodeError.contextBlob.message)) := by
      rw [Engine.stepForward, if_neg (by simp [unreadable.unasked]), if_neg (by omega),
        Engine.executeStep]
      simp only [stepName, Engine.invoke, unreadable.malformed]
      rfl
    rw [status, moves]
    refine notesAndSettles_noted found₁ ?_
    simp only [Transition.next, Transition.apply, Transition.markedBlob, unreadable.blob,
      Execution.failing, status]
    rfl
  · have moves : Engine.stepBackward d row = (do
        Action.log (.err "compensation gave up"
          [.execution row.id, .text "step" step, .text "reason" (unreadableReason step)])
        Engine.settle row (.gaveUp (Engine.attemptsAfter row) (unreadableReason step))) := by
      rw [Engine.stepBackward, if_neg (by omega), Engine.undoStep]
      simp only [stepName, Engine.invoke, unreadable.malformed]
      rfl
    rw [status, moves]
    refine notesAndSettles_noted found₁ ?_
    simp only [Transition.next, Transition.apply, Execution.failing, status]
    rfl

/-- An advance stores the next move, unless somebody else has a lease: then it does nothing. -/
inductive Advances (x step : String) (row : Execution) (s s' : Premises × List Deed) :
    Except Failure Advanced → Prop
  | moved (now : Nat) (free : s'.1.Free x)
      (found : s'.1.rows.get? x = some (((row.failing step).stamped now).replacing row))
      (noted : s'.2 = s.2 ++ .writes ((row.failing step).stamped now) ::
        if row.status = .compensating then
          (((row.failing step).stamped now).replacing row).reported
        else []) :
      Advances x step row s s'
        (.ok (if row.status = .compensating then .terminal else .progressed))
  | gaveUp (leased : ¬s.1.Free x) (rows : s'.1.rows = s.1.rows) (noted : s'.2 = s.2) :
      Advances x step row s s' (.ok .abandoned)

theorem advances_unreadable (unreadable : Unreadable row) (known : e.definitionOf row = .ok d)
    (named : d.stepAt? row.stepIndex = some step) (found : v.rows.get? x = some row) :
    Ensures (noted x meant) (fun r s => Advances x step row (v, ds) s r) (e.advance x) (v, ds) := by
  refine Ensures.bind (((statuses x x v).quietly (getStatus_does x)).mono ?_)
  rintro r ⟨v₁, ds₁⟩ ⟨⟨rests, seen⟩, list⟩
  rw [found] at seen
  subst seen
  obtain rfl : ds₁ = ds := list row rfl
  have found₁ : v₁.rows.get? x = some row := rests.rows ▸ found
  dsimp only
  rw [if_neg (Bool.eq_false_iff.1 unreadable.active), known]
  refine Ensures.bind (Ensures.ofExcept ?_)
  refine Ensures.bind (((acquires x v₁).quietly (.ask (.acquire x))).mono ?_)
  rintro _ ⟨v₂, ds₂⟩ ⟨⟨rows, ⟨free, lease, about, rfl, own⟩ | ⟨held, rfl⟩⟩, list₂⟩
  · obtain rfl : ds₂ = ds₁ := list₂ _ rfl
    have found₂ : v₂.rows.get? x = some row := rows ▸ found₁
    refine Ensures.ensuring ((advancesHeld_unreadable unreadable named found₂).mono ?_)
    rintro _ ⟨v₃, ds₃⟩ ⟨now, found₃, later, noted⟩
    have own₃ : v₃.leases.get? x = some lease := by rw [later.leases, own]
    refine (((releases own₃ about).quietly (.ask (.release lease))).mono ?_)
    rintro _ ⟨v₄, ds₄⟩ ⟨⟨rfl, rows₄, free₄⟩, list₄⟩
    obtain rfl : ds₄ = ds₃ := list₄ _ rfl
    have last : (row.failing step).status.isTerminal = true ↔ row.status = .compensating :=
      unreadable.failing_isTerminal
    have found₄ := found₃
    simp only [last, ← rows₄] at noted found₄ ⊢
    exact .moved now free₄ found₄ noted
  · obtain rfl : ds₂ = ds₁ := list₂ _ rfl
    have line : Ensures (terms x meant) (fun r v₃ => r = .ok () ∧ Rests v₂ v₃)
        (Action.log (.debug "execution leased by another owner" [.execution x])) v₂ :=
      writesLine fun _ rests => ⟨rfl, rests⟩
    refine Ensures.bind ((line.quietly (log_does _)).mono ?_)
    rintro _ ⟨v₃, ds₃⟩ ⟨⟨rfl, rests₃⟩, list₃⟩
    obtain rfl : ds₃ = ds₂ := list₃ _ rfl
    exact .gaveUp (fun free => held (rests.toLater.free free))
      (rests₃.rows.trans (rows.trans rests.rows)) rfl

/-! ## The whole drive -/

/-- What a drive comes to: the execution fails safe, or somebody else has a lease. -/
inductive Drove (x step : String) (row : Execution) (s s' : Premises × List Deed) : Prop
  | failed (last : Execution) (deeds : List Deed) (found : s'.1.rows.get? x = some last)
      (noted : s'.2 = s.2 ++ deeds) (safe : FailsSafe step row last deeds)
  | gaveUp (leased : ¬s.1.Free x) (rows : s'.1.rows = s.1.rows) (noted : s'.2 = s.2)

theorem drivesWithin_unreadable {k : Nat} (unreadable : Unreadable row)
    (known : e.definitionOf row = .ok d) (named : d.stepAt? row.stepIndex = some step)
    (found : v.rows.get? x = some row) (enough : row.movesToFailure ≤ k) :
    Ensures (noted x meant) (fun r s => r = .ok () ∧ Drove x step row (v, ds) s)
      (e.driveWithin x k) (v, ds) := by
  induction k generalizing row v ds with
  | zero =>
    unfold Execution.movesToFailure at enough
    split at enough <;> omega
  | succ k ih =>
    have total := (definitionOf_eq_ok.1 known).2
    refine Ensures.bind ((advances_unreadable unreadable known named found).mono ?_)
    rintro _ ⟨v₁, ds₁⟩ (⟨now, free, found₁, noted⟩ | ⟨leased, rows, noted⟩)
    · by_cases last : row.status = .compensating
      · simp only [last, if_true] at noted ⊢
        exact ⟨rfl, .failed _ _ found₁ noted (.ofUndo last now)⟩
      · simp only [last, if_false] at noted ⊢
        obtain ⟨unreadable₁, fewer⟩ := unreadable.failing step total last now
        have index : (((row.failing step).stamped now).replacing row).stepIndex = row.stepIndex :=
          (failing_place row step).2
        refine (ih unreadable₁ ((definitionOf_congr (failing_origin now)).2 known)
          (index ▸ named) found₁ (by omega)).mono ?_
        rintro _ ⟨v₂, ds₂⟩ ⟨rfl, ⟨last', deeds, found₂, noted₂, safe⟩ | ⟨leased, -⟩⟩
        · refine ⟨rfl, .failed last' _ found₂ ?_ (safe.before unreadable last now)⟩
          rw [show ds₂ = _ from noted₂, show ds₁ = _ from noted, List.append_assoc]
          rfl
        · exact absurd free leased
    · exact ⟨rfl, .gaveUp leased rows noted⟩

end Premises

/-- Where nobody else writes, the drive of an execution at a step whose context does not parse calls
nothing and ends as failed where it was, with its context as it was; unless somebody else has a
lease of it, in which case the drive may do nothing at all. -/
theorem unreadable_context_fails_safe (w : SoleWriter σ) {s : σ} (unreadable : Unreadable row)
    (found : (w.view s).rows.get? x = some row) (known : e.definitionOf row = .ok d)
    (patient : 3 ≤ e.patience) :
    ∃ step, d.stepAt? row.stepIndex = some step ∧
      ((∃ last, ((e.drive x).run w.answer s).1 = .ok last ∧
          (w.view ((e.drive x).run w.answer s).2).rows.get? x = some last ∧
          FailsSafe step row last ((e.drive x).deeds w.answer s)) ∨
        ¬(w.view s).Free x ∧ ((e.drive x).run w.answer s).1 = .ok row ∧
          (w.view ((e.drive x).run w.answer s).2).rows = (w.view s).rows ∧
          (e.drive x).deeds w.answer s = []) := by
  obtain ⟨step, named⟩ := unreadable.named (definitionOf_eq_ok.1 known).2
  refine ⟨step, named, ?_⟩
  have enough : row.movesToFailure ≤ e.patience := by
    unfold Execution.movesToFailure
    split <;> omega
  have drives : Ensures (Premises.noted x False)
      (fun r s' => ∃ last, r = .ok last ∧ s'.1.rows.get? x = some last ∧
        (FailsSafe step row last s'.2 ∨
          ¬(w.view s).Free x ∧ last = row ∧ s'.1.rows = (w.view s).rows ∧ s'.2 = []))
      (e.drive x) (w.view s, []) := by
    refine Ensures.bind
      ((Premises.drivesWithin_unreadable unreadable known named found enough).mono ?_)
    rintro _ ⟨v₁, ds₁⟩ ⟨rfl, drove⟩
    refine ((Premises.statuses x x v₁).quietly (getStatus_does x)).mono ?_
    rintro r ⟨v₂, ds₂⟩ ⟨⟨rests, seen⟩, list⟩
    rcases drove with ⟨last, deeds, found₁, noted, safe⟩ | ⟨leased, rows, noted⟩
    · rw [show v₁.rows.get? x = some last from found₁] at seen
      subst seen
      obtain rfl : ds₂ = ds₁ := list _ rfl
      exact ⟨last, rfl, rests.rows ▸ found₁, .inl ((show ds₂ = deeds from noted) ▸ safe)⟩
    · rw [show v₁.rows = _ from rows, found] at seen
      subst seen
      obtain rfl : ds₂ = ds₁ := list _ rfl
      have same : v₂.rows = (w.view s).rows := rests.rows.trans rows
      exact ⟨row, rfl, same ▸ found, .inr ⟨leased, rfl, same, noted⟩⟩
  obtain ⟨last, answers, stored, safe | ⟨leased, rfl, rows, none⟩⟩ :=
    w.noted_of_ensures False.elim drives
  · exact .inl ⟨last, answers, stored, safe⟩
  · exact .inr ⟨leased, answers, rows, none⟩

end

namespace Sample

/-- An execution at its only step with a blob that breaks off. -/
def damaged : Execution := { accepted with status := .inProgress, context := "\x7b" }

def damagedOnly : Premises :=
  { unshared with
    rows := Dictionary.empty.insert "x" damaged
    keyed := RowMap.keyed_empty.put (w := .insert damaged) }

end Sample

/-- The step would be called if the blob were whole. -/
theorem unreadable_context_fails_safe_damaged :
    ∃ last, ((Sample.engine.drive "x").run Sample.quitter.answer Sample.damagedOnly).1 = .ok last ∧
      FailsSafe "reserve" Sample.damaged last
        ((Sample.engine.drive "x").deeds Sample.quitter.answer Sample.damagedOnly) := by
  have unreadable : Unreadable Sample.damaged :=
    ⟨by decide +kernel, .inr ⟨.inl rfl, by decide, by decide⟩, rfl⟩
  have known : Sample.engine.definitionOf Sample.damaged = .ok Sample.definition :=
    definitionOf_eq_ok.2 ⟨rfl, rfl⟩
  obtain ⟨step, named, ⟨last, answers, -, safe⟩ | ⟨leased, -⟩⟩ :=
    unreadable_context_fails_safe (x := "x") Sample.quitter (s := Sample.damagedOnly) unreadable rfl
      known (by decide)
  · obtain rfl : "reserve" = step := Option.some.inj named
    exact ⟨last, answers, safe⟩
  · exact absurd rfl leased

end SagaEngine
