import SagaEngine.Engine.Orchestrator
import SagaEngine.Proofs.Contract
import SagaEngine.Proofs.TransactionStages
/-!
# What an operation has in its hands

An operation opens one transaction at a time and writes in it only until its commit, holds one
lease at a time, makes a step call only while it has stored nothing and no transaction is open, and
reports only what it has stored. A `Custody` is the little that has to be known of the requests so
far to say so. Whatever is answered, an operation keeps to it, and one that fails has stored
nothing. Main statements: `advance_undone`, `start_undone`, `cancel_undone` and `resume_undone`.
-/

namespace SagaEngine

/-- What a program has open and holds, and whether it has called a step or stored a row. -/
structure Custody where
  tx : Option (Nat × Stage) := none
  lease : Option Lease := none
  called : Bool := false
  stored : Bool := false

namespace Custody

def after (m : Custody) : (q : Request) → Response q → Custody
  | .begin, .ok tx => { m with tx := some (tx, .clean) }
  | .insert tx _, _ | .update tx _ _, _ => { m with tx := some (tx, .written) }
  | .commit tx, .ok _ =>
    { m with tx := some (tx, .ended), stored := m.stored || m.tx = some (tx, .written) }
  | .drop _, _ => { m with tx := none }
  | .acquire _, some lease => { m with lease := some lease }
  | .release _, _ => { m with lease := none }
  | .call .., _ => { m with called := true }
  | _, _ => m

/-- A transaction is open and was not committed. -/
def Inside (m : Custody) (tx : Nat) : Prop := ∃ stage, m.tx = some (tx, stage) ∧ stage ≠ .ended

def Allows (m : Custody) : Request → Prop
  | .begin => m.tx = none
  | .insert tx _ | .update tx _ _ | .find tx _ | .listByStatus tx _ _ | .listStale tx _
  | .commit tx => m.Inside tx
  | .drop tx => ∃ stage, m.tx = some (tx, stage)
  | .acquire _ => m.tx = none ∧ m.lease = none
  | .release lease => m.tx = none ∧ m.lease = some lease
  | .call .. => m.tx = none ∧ m.stored = false
  | .alert _ | .completed _ => m.stored = true
  | _ => True

theorem after_clean_commit (m : Custody) (tx : Nat) :
    ({ m with tx := some (tx, .clean) } : Custody).after (.commit tx) (.ok ()) =
      { m with tx := some (tx, .ended) } := by
  simp [after]

theorem after_written_commit (m : Custody) (tx : Nat) :
    ({ m with tx := some (tx, .written) } : Custody).after (.commit tx) (.ok ()) =
      { m with tx := some (tx, .ended), stored := true } := by
  simp [after]

end Custody

/-- What is dispatched is taken by somebody. -/
def Request.IsTaken : (q : Request) → Response q → Prop
  | .dispatch _, taken => taken = true
  | _, _ => True

namespace Custody

/-- A program keeps to its custody whatever it is answered, except perhaps that nobody takes what
it dispatches. -/
def terms (queued : Prop) : Contract Request Response Custody where
  drifts m m' := m' = m
  answers m q answer m' := m' = m.after q answer ∧ (queued → q.IsTaken answer)
  permits m q _ _ := m.Allows q
  trans := by
    rintro m₁ m₂ m₃ rfl rfl
    rfl

end Custody

/-- The failure is found out before anything is called or stored. -/
def Failure.isEarly : Failure → Bool
  | unregistered _ | stepCountDiffers .. | executionMissing _ => true
  | _ => false

section

variable {queued : Prop} {m : Custody} {α : Type}

namespace Custody

theorem asks {q : Request} {post : Except Failure (Response q) → Custody → Prop}
    (allowed : m.Allows q)
    (answered : ∀ answer, (queued → q.IsTaken answer) → post (.ok answer) (m.after q answer)) :
    Ensures (Custody.terms queued) post (Action.ask q) m := by
  apply Ensures.question
  rintro _ rfl answer _ ⟨rfl, taken⟩
  exact ⟨allowed, answered answer taken⟩

theorem writesLine {entry : LogEntry} {post : Except Failure Unit → Custody → Prop}
    (written : post (.ok ()) m) :
    Ensures (Custody.terms queued) post (Action.log entry) m :=
  asks trivial fun _ _ => written

/-- Inside a transaction the body may do what it likes with it; afterwards it is closed. -/
theorem bracket {body : Nat → Action α} {post : Except Failure α → Custody → Prop}
    (free : m.tx = none) (unopened : ∀ failure, post (.error (.store failure)) m)
    (inside : ∀ tx, Ensures (Custody.terms queued)
      (fun r m' => (∃ stage, m'.tx = some (tx, stage)) ∧ post r { m' with tx := none }) (body tx)
      { m with tx := some (tx, .clean) }) :
    Ensures (Custody.terms queued) post (Action.withTransaction body) m := by
  refine Ensures.bind (asks free ?_)
  rintro (failure | tx) -
  · exact unopened failure
  · refine Ensures.ensuring ((inside tx).mono ?_)
    rintro r m' ⟨opened, ends⟩
    exact asks opened fun _ _ => ends

theorem commits {tx : Nat} {post : Except Failure Unit → Custody → Prop}
    (inside : m.Inside tx) (failed : ∀ failure, post (.error (.store failure)) m)
    (committed : post (.ok ()) (m.after (.commit tx) (.ok ()))) :
    Ensures (Custody.terms queued) post (Action.commit tx) m := by
  refine Ensures.bind (asks inside ?_)
  rintro (failure | ⟨⟩) -
  · exact failed failure
  · exact committed

theorem loads {x : String} {post : Except Failure (Option Execution) → Custody → Prop}
    (free : m.tx = none) (failed : ∀ failure, post (.error (.store failure)) m)
    (found : ∀ row, post (.ok row) m) :
    Ensures (Custody.terms queued) post (Engine.load x) m := by
  obtain ⟨_, lease, called, hasStored⟩ := m
  cases free
  refine bracket rfl failed fun tx => ?_
  refine Ensures.bind (asks ⟨.clean, rfl, by decide⟩ ?_)
  rintro (failure | row) -
  · exact ⟨⟨.clean, rfl⟩, failed failure⟩
  · refine Ensures.bind (Ensures.ofExcept (Ensures.bind (commits ⟨.clean, rfl, by decide⟩ ?_ ?_)))
    · exact fun failure => ⟨⟨.clean, rfl⟩, failed failure⟩
    · refine ⟨⟨.ended, rfl⟩, ?_⟩
      have after := Custody.after_clean_commit ⟨none, lease, called, hasStored⟩ tx
      exact after ▸ found row

theorem statuses {x : String} {post : Except Failure Execution → Custody → Prop}
    (free : m.tx = none) (failed : ∀ failure, post (.error (.store failure)) m)
    (missing : post (.error (.executionMissing x)) m) (found : ∀ row, post (.ok row) m) :
    Ensures (Custody.terms queued) post (Engine.getStatus x) m := by
  refine Ensures.bind (loads free failed ?_)
  rintro (_ | row)
  · exact missing
  · exact found row

end Custody

end

namespace Custody

/-- Nothing is open or held that was not before, and a failure that is not an early one has
stored nothing. -/
structure Settled {α : Type} (m : Custody) (r : Except Failure α) (m' : Custody) : Prop where
  tx : m'.tx = m.tx
  lease : m'.lease = m.lease
  unstored : ∀ failure, r = .error failure → m'.stored = m.stored
  late : ∀ failure, r = .error failure → failure.isEarly = false

/-- Nothing is open or held that was not before, and a failure has stored nothing; an early one has
called nothing. -/
structure Undone {α : Type} (m : Custody) (r : Except Failure α) (m' : Custody) : Prop where
  tx : m'.tx = m.tx
  lease : m'.lease = m.lease
  unstored : ∀ failure, r = .error failure → m'.stored = m.stored
  uncalled : ∀ failure, r = .error failure → failure.isEarly = true → m'.called = m.called

section

variable {α β : Type} {m m' : Custody} {failure : Failure}

theorem Settled.failed (late : failure.isEarly = false) :
    Settled m (.error failure : Except Failure α) m :=
  ⟨rfl, rfl, fun _ _ => rfl, by rintro _ ⟨⟩; exact late⟩

theorem Settled.ok {value : α} (tx : m'.tx = m.tx) (lease : m'.lease = m.lease) :
    Settled m (.ok value) m' := ⟨tx, lease, nofun, nofun⟩

theorem Settled.of_called {r : Except Failure α} {called : Bool}
    (settled : Settled { m with called } r m') : Settled m r m' :=
  ⟨settled.tx, settled.lease, settled.unstored, settled.late⟩

theorem Settled.undone {r : Except Failure α} (settled : Settled m r m') : Undone m r m' := by
  refine ⟨settled.tx, settled.lease, settled.unstored, ?_⟩
  intro failure failed early
  rw [settled.late failure failed] at early
  cases early

theorem Undone.failed : Undone m (.error failure : Except Failure α) m :=
  ⟨rfl, rfl, fun _ _ => rfl, fun _ _ _ => rfl⟩

theorem Undone.ok {value : α} (tx : m'.tx = m.tx) (lease : m'.lease = m.lease) :
    Undone m (.ok value) m' := ⟨tx, lease, nofun, nofun⟩

end

end Custody

theorem next_late {t : Transition} {row : Execution} {failure : Failure}
    (failed : t.next row = .error failure) : failure.isEarly = false := by
  have merges {blob : String} {fragment : Context} {failure : Failure}
      (failed : Transition.mergedBlob blob fragment = .error failure) :
      failure.isEarly = false := by
    unfold Transition.mergedBlob at failed
    split at failed <;> cases failed
    rfl
  unfold Transition.next at failed
  split at failed
  · rename_i applied
    cases failed
    cases t with
    | stepDone fragment | stepUndone fragment =>
      simp only [Transition.apply, Except.map] at applied
      split at applied
      · rename_i merged
        cases applied
        exact merges merged
      · cases applied
    | _ => cases applied
  · split at failed <;> cases failed
    rfl

theorem stepName_late {d : SagaDefinition} {index : Int} {failure : Failure}
    (failed : Engine.stepName d index = .error failure) : failure.isEarly = false := by
  unfold Engine.stepName at failed
  split at failed <;> cases failed
  rfl

section

variable {queued : Prop} {m : Custody} {x : String} {d : SagaDefinition} {row : Execution}

open Custody

namespace Custody

theorem writes {base row : Execution} {post : Except Failure Engine.Written → Custody → Prop}
    (free : m.tx = none) (failed : ∀ failure, failure.isEarly = false → post (.error failure) m)
    (vanished : post (.ok .vanished) m) (outrun : post (.ok .outrun) m)
    (stored : ∀ row, post (.ok (.stored row)) { m with stored := true }) :
    Ensures (terms queued) post (Engine.writeOnce base row) m := by
  obtain ⟨_, lease, called, hasStored⟩ := m
  cases free
  refine bracket rfl (fun failure => failed _ rfl) fun tx => ?_
  refine Ensures.bind (asks ⟨.clean, rfl, by decide⟩ ?_)
  rintro (failure | refusal | version) -
  · exact ⟨⟨.written, rfl⟩, failed _ rfl⟩
  · dsimp only
    split
    · exact Ensures.bind (writesLine ⟨⟨.written, rfl⟩, vanished⟩)
    · exact ⟨⟨.written, rfl⟩, outrun⟩
    · exact ⟨⟨.written, rfl⟩, failed _ rfl⟩
  · refine Ensures.bind (asks ⟨.written, rfl, by decide⟩ ?_)
    rintro (failure | ⟨⟩) -
    · dsimp only
      split
      · exact Ensures.bind (writesLine ⟨⟨.written, rfl⟩, outrun⟩)
      · exact ⟨⟨.written, rfl⟩, failed _ rfl⟩
    · refine ⟨⟨.ended, rfl⟩, ?_⟩
      have after := after_written_commit ⟨none, lease, called, hasStored⟩ tx
      exact after ▸ stored _

theorem persists (t : Transition) (tries : Nat) (base : Execution)
    {post : Except Failure (Option Execution) → Custody → Prop} (free : m.tx = none)
    (failed : ∀ failure, failure.isEarly = false → post (.error failure) m)
    (unstored : post (.ok none) m)
    (stored : ∀ row, post (.ok (some row)) { m with stored := true }) :
    Ensures (terms queued) post (Engine.persistWithin t tries base) m := by
  have abandons (id : String) : Ensures (terms queued) post (Engine.abandon id) m :=
    Ensures.bind (writesLine unstored)
  induction tries generalizing base with
  | zero => exact unstored
  | succ tries ih =>
    refine Ensures.bind (Ensures.ofExcept ?_)
    cases next : t.next base with
    | error failure => exact failed failure (next_late next)
    | ok changed =>
      refine Ensures.bind (asks trivial fun now _ => ?_)
      refine Ensures.bind (writes free failed unstored ?_ stored)
      refine Ensures.bind (loads free (fun _ => failed _ rfl) fun fresh => ?_)
      dsimp only
      split
      · exact abandons base.id
      · split
        · exact ih _
        · exact abandons base.id

theorem reports {post : Except Failure Unit → Custody → Prop} (stored : m.stored = true)
    (reported : post (.ok ()) m) : Ensures (terms queued) post (Engine.report row) m := by
  have told : Ensures (terms queued) post (do
      Action.log (.info "saga finished"
        [.execution row.id, .text "saga_type" row.sagaType, .text "status" row.status.name,
          .int "step_index" row.stepIndex, .text "failed_step" row.failedStep,
          .text "failure_reason" row.failureReason])
      Action.ask (.completed row)) m :=
    Ensures.bind (writesLine (asks stored fun _ _ => reported))
  rw [Engine.report]
  split
  · exact Ensures.bind (asks stored fun _ _ => told)
  · exact told

theorem settles (base : Execution) (t : Transition) (onSuccess : Advanced) (free : m.tx = none) :
    Ensures (terms queued) (Settled m) (Engine.settle base t onSuccess) m := by
  refine Ensures.bind (persists t _ base free (fun _ => .failed) (.ok rfl rfl) fun row => ?_)
  show Ensures _ _ (Engine.finish (some row) onSuccess) _
  rw [Engine.finish]
  split
  · exact Ensures.bind (reports rfl (.ok rfl rfl))
  · exact .ok rfl rfl

theorem calls {d : SagaDefinition} {row : Execution} {call : StepCall}
    {post : Except Failure StepResult → Custody → Prop} (free : m.tx = none)
    (unstored : m.stored = false) (called : ∀ result, post (.ok result) { m with called := true }) :
    Ensures (terms queued) post (Engine.callStep d row call) m := by
  refine Ensures.bind (asks trivial fun span _ => ?_)
  refine Ensures.bind (asks ⟨free, unstored⟩ fun reply _ => ?_)
  dsimp only
  split
  · exact Ensures.bind (asks trivial fun _ _ => Ensures.bind (writesLine
      (Ensures.bind (asks trivial fun _ _ => called _))))
  · exact Ensures.bind (writesLine (Ensures.bind (asks trivial fun _ _ => called _)))

theorem invokes {step : String} {phase : Phase}
    {post : Except Failure StepResult → Custody → Prop} (free : m.tx = none)
    (unstored : m.stored = false) (invoked : ∀ result called, post (.ok result) { m with called }) :
    Ensures (terms queued) post (Engine.invoke d row step phase) m := by
  rw [Engine.invoke]
  split
  · exact invoked _ m.called
  · exact calls free unstored fun result => invoked result true

theorem retriesLater (step message line : String) (free : m.tx = none) :
    Ensures (terms queued) (Settled m) (Engine.retryLater d row step message line) m :=
  Ensures.bind (writesLine (settles _ _ _ free))

theorem executes (free : m.tx = none) (unstored : m.stored = false) :
    Ensures (terms queued) (Settled m) (Engine.executeStep d row) m := by
  refine Ensures.bind (Ensures.ofExcept ?_)
  cases named : Engine.stepName d row.stepIndex with
  | error failure => exact .failed (stepName_late named)
  | ok step =>
    refine Ensures.bind (invokes free unstored fun result called => ?_)
    refine (?_ : Ensures (terms queued) (Settled { m with called }) _ _).mono fun _ _ =>
      .of_called
    dsimp only
    split
    · exact settles _ _ _ free
    · split
      · exact Ensures.bind (writesLine (settles _ _ _ free))
      · exact retriesLater _ _ _ free
    · exact Ensures.bind (writesLine (settles _ _ _ free))
    · exact .ok rfl rfl

theorem undoes (free : m.tx = none) (unstored : m.stored = false) :
    Ensures (terms queued) (Settled m) (Engine.undoStep d row) m := by
  refine Ensures.bind (Ensures.ofExcept ?_)
  cases named : Engine.stepName d row.stepIndex with
  | error failure => exact .failed (stepName_late named)
  | ok step =>
    refine Ensures.bind (invokes free unstored fun result called => ?_)
    refine (?_ : Ensures (terms queued) (Settled { m with called }) _ _).mono fun _ _ =>
      .of_called
    split
    · exact settles _ _ _ free
    · dsimp only
      split
      · exact retriesLater _ _ _ free
      · exact Ensures.bind (writesLine (settles _ _ _ free))

theorem advancesHeld (free : m.tx = none) (unstored : m.stored = false) :
    Ensures (terms queued) (Undone m) (Engine.advanceHeld d x) m := by
  refine Ensures.bind (statuses free (fun _ => .failed) .failed fun row => ?_)
  refine (?_ : Ensures (terms queued) (Settled m) _ m).mono fun _ _ => Settled.undone
  split
  · exact settles _ _ _ free
  · rw [Engine.stepForward]
    split
    · exact Ensures.bind (writesLine (settles _ _ _ free))
    · split
      · exact settles _ _ _ free
      · exact executes free unstored
  · rw [Engine.stepBackward]
    split
    · exact settles _ _ _ free
    · exact undoes free unstored
  · exact .ok rfl rfl

theorem recordsCancel {post : Except Failure Bool → Custody → Prop} (free : m.tx = none)
    (failed : ∀ failure, post (.error failure) m) (outrun : post (.ok false) m)
    (recorded : post (.ok true) { m with stored := true }) :
    Ensures (terms queued) post (Engine.recordCancel x row) m := by
  obtain ⟨_, lease, called, hasStored⟩ := m
  cases free
  refine Ensures.bind (asks trivial fun now _ => ?_)
  refine bracket rfl (fun _ => failed _) fun tx => ?_
  refine Ensures.bind (asks ⟨.clean, rfl, by decide⟩ ?_)
  rintro (failure | refusal | version) -
  · exact ⟨⟨.written, rfl⟩, failed _⟩
  · refine Ensures.bind (Ensures.ofExcept ?_)
    show Ensures _ _ (ite (refusal.code = .conflict) _ _) _
    split
    · exact ⟨⟨.written, rfl⟩, outrun⟩
    · exact ⟨⟨.written, rfl⟩, failed _⟩
  · refine Ensures.bind (Ensures.ofExcept ?_)
    refine Ensures.bind (commits ⟨.written, rfl, by decide⟩ ?_ ?_)
    · exact fun failure => ⟨⟨.written, rfl⟩, failed _⟩
    · refine Ensures.bind (writesLine ⟨⟨.ended, rfl⟩, ?_⟩)
      have after := after_written_commit ⟨none, lease, called, hasStored⟩ tx
      exact after ▸ recorded

end Custody

/-! ## Operations -/

theorem advance_undone (e : Engine) (x : String) :
    Ensures (terms queued) (Custody.Undone {}) (e.advance x) {} := by
  refine Ensures.bind (statuses rfl (fun _ => .failed) .failed fun seen => ?_)
  dsimp only
  split
  · exact .ok rfl rfl
  · refine Ensures.bind (Ensures.ofExcept ?_)
    cases e.definitionOf seen with
    | error failure => exact .failed
    | ok d =>
      refine Ensures.bind (asks ⟨rfl, rfl⟩ ?_)
      rintro (_ | lease) -
      · exact Ensures.bind (writesLine (.ok rfl rfl))
      · refine Ensures.ensuring ((advancesHeld rfl rfl).mono ?_)
        intro r m undone
        refine asks ⟨undone.tx, undone.lease⟩ fun _ _ => ?_
        exact ⟨undone.tx, rfl, undone.unstored, undone.uncalled⟩

theorem start_undone (e : Engine) (sagaType : String) (context : Context) :
    Ensures (terms queued) (Custody.Undone {}) (e.start sagaType context) {} := by
  refine Ensures.bind (Ensures.ofExcept ?_)
  cases e.definition sagaType with
  | error failure => exact .failed
  | ok d =>
    refine Ensures.bind (asks trivial fun executionId _ => ?_)
    refine Ensures.bind (asks trivial fun now _ => ?_)
    refine Ensures.bind (bracket rfl (fun _ => .failed) fun tx => ?_)
    refine Ensures.bind (asks ⟨.clean, rfl, by decide⟩ ?_)
    rintro (failure | refusal | ⟨⟩) -
    · exact ⟨⟨.written, rfl⟩, .failed⟩
    · exact ⟨⟨.written, rfl⟩, .failed⟩
    · refine Ensures.bind (Ensures.ofExcept (commits ⟨.written, rfl, by decide⟩ ?_ ?_))
      · exact fun failure => ⟨⟨.written, rfl⟩, .failed⟩
      · refine ⟨⟨.ended, rfl⟩, ?_⟩
        exact Ensures.bind (writesLine (Ensures.bind (asks trivial fun _ _ =>
          .ok rfl rfl)))

theorem cancel_undone (x : String) :
    Ensures (terms queued) (Custody.Undone {}) (Engine.cancel x) {} := by
  have within (tries : Nat) :
      Ensures (terms queued) (Custody.Undone {}) (Engine.cancelWithin x tries) {} := by
    induction tries with
    | zero => exact .failed
    | succ tries ih =>
      refine Ensures.bind (statuses rfl (fun _ => .failed) .failed fun row => ?_)
      dsimp only
      split
      · exact .failed
      · split
        · exact .ok rfl rfl
        · exact Ensures.bind (recordsCancel rfl (fun _ => .failed) ih (.ok rfl rfl))
  exact within _

theorem resume_undone (taken : queued) (e : Engine) (x : String) :
    Ensures (terms queued) (Custody.Undone {}) (e.resume x) {} := by
  refine Ensures.bind (statuses rfl (fun _ => .failed) .failed fun row => ?_)
  dsimp only
  split
  · exact writesLine (.ok rfl rfl)
  · refine Ensures.bind (Ensures.ofExcept ?_)
    cases e.definitionOf row with
    | error failure => exact .failed
    | ok d =>
      refine Ensures.bind (writesLine (Ensures.bind (asks trivial ?_)))
      intro answer dispatched
      rw [show answer = true from dispatched taken]
      exact .ok rfl rfl

end

end SagaEngine
