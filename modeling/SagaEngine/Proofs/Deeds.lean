import SagaEngine.Proofs.DriveTermination
import SagaEngine.Proofs.FailedOperations
/-!
# The deeds of a run

Most of what a program asks for only reads or notes something down. Its deeds are the rows that it
writes, the steps that it calls and what it tells the observers. Where the deeds of a program do not
depend on the answers, what it ensures about the rows can be taken as it is to a contract that
keeps a list of deeds as well. Main statements: `Program.Does.bind`, `Ensures.noting` and
`SoleWriter.noted_of_ensures`.
-/

namespace SagaEngine

/-- A row is written, a step is called, or an observer is told something. -/
inductive Deed
  | writes (row : Execution)
  | calls (sagaType : String) (call : StepCall)
  | alerts (alert : Alert)
  | completes (row : Execution)

def Request.deed? : Request → Option Deed
  | .insert _ row => some (.writes row)
  | .update _ row _ => some (.writes row)
  | .call sagaType made => some (.calls sagaType made)
  | .alert raised => some (.alerts raised)
  | .completed row => some (.completes row)
  | _ => none

/-- What the observers are told about an execution that became terminal. -/
def Execution.reported (row : Execution) : List Deed :=
  (if row.status = .failed then
      [.alerts ⟨row.id, row.sagaType, row.status.name, row.lastError⟩]
    else []) ++ [.completes row]

namespace Program

variable {α β : Type}

/-- The deeds of a run, in order. -/
def deeds {σ : Type} (answer : (q : Request) → σ → Response q × σ) (p : Action α) (s : σ) :
    List Deed :=
  (p.visits answer s).filterMap (·.question.deed?)

/-- Whatever it is answered, the program does these deeds in this order, unless it fails. -/
def Does : Program Request Response Failure α → List Deed → Prop
  | .done _, deeds => deeds = []
  | .failed _, _ => True
  | .ask q next, deeds =>
    ∃ later, deeds = q.deed?.toList ++ later ∧ ∀ answer, (next answer).Does later

namespace Does

variable {p : Action α} {f : α → Action β} {deeds later : List Deed}

theorem ofExcept (value : Except Failure α) : Does (Program.ofExcept value) [] := by
  cases value with
  | ok => rfl
  | error => trivial

theorem ask (q : Request) : Does (Action.ask q) q.deed?.toList :=
  ⟨[], (List.append_nil _).symm, fun _ => rfl⟩

theorem bind (first : p.Does deeds) (rest : ∀ value, (f value).Does later) :
    (p >>= f).Does (deeds ++ later) := by
  induction p generalizing deeds with
  | done value =>
    obtain rfl : deeds = [] := first
    exact rest value
  | failed => trivial
  | ask q next ih =>
    obtain ⟨after, rfl, goesOn⟩ := first
    exact ⟨after ++ later, List.append_assoc .., fun answer => ih answer (goesOn answer)⟩

theorem ensuring {closing : Action Unit} (first : p.Does deeds) (closes : closing.Does []) :
    (p.ensuring closing).Does deeds := by
  induction p generalizing deeds with
  | done value => exact first ▸ bind closes fun _ => rfl
  | failed failure => exact bind (f := fun _ => .failed failure) closes fun _ => trivial
  | ask q next ih =>
    obtain ⟨after, rfl, goesOn⟩ := first
    exact ⟨after, rfl, fun answer => ih answer (goesOn answer)⟩

theorem transaction {body : Nat → Action α} (inside : ∀ tx, (body tx).Does deeds) :
    (Action.withTransaction body).Does deeds :=
  bind (ask .begin) fun _ => bind (ofExcept _) fun tx => ensuring (inside tx) (ask (.drop tx))

end Does

end Program

open Program (Does)

/-! ## What the parts of an advance do -/

section

variable (x : String) (base row : Execution)

theorem log_does (entry : LogEntry) : Does (Action.log entry) [] := .ask (.log entry)

theorem load_does : Does (Engine.load x) [] :=
  .transaction fun tx => .bind (.ask (.find tx x)) fun _ => .bind (.ofExcept _) fun _ =>
    .bind (.bind (.ask (.commit tx)) fun _ => .ofExcept _) fun _ => rfl

theorem getStatus_does : Does (Engine.getStatus x) [] := by
  refine .bind (load_does x) fun found => ?_
  cases found with
  | none => trivial
  | some row => rfl

theorem writeOnce_does : Does (Engine.writeOnce base row) [.writes row] := by
  refine .transaction fun tx => .bind (.ask (.update tx row base.version)) fun answer => ?_
  split
  · trivial
  · split
    · exact .bind (log_does _) fun _ => rfl
    · rfl
    · trivial
  · refine .bind (.ask (.commit tx)) fun committed => ?_
    split
    · rfl
    · split
      · exact .bind (log_does _) fun _ => rfl
      · trivial

theorem report_does : Does (Engine.report row) row.reported := by
  have told : Does (do
      Action.log (.info "saga finished"
        [.execution row.id, .text "saga_type" row.sagaType, .text "status" row.status.name,
          .int "step_index" row.stepIndex, .text "failed_step" row.failedStep,
          .text "failure_reason" row.failureReason])
      Action.ask (.completed row)) [.completes row] :=
    .bind (log_does _) fun _ => .ask (.completed row)
  rw [Engine.report, Execution.reported]
  split
  · exact .bind (.ask (.alert _)) fun _ => told
  · exact told

end

/-! ## Keeping a list -/

namespace Premises

/-- The terms with a list of the deeds. -/
def noted (x : String) (meant : Prop) : Contract Request Response (Premises × List Deed) where
  drifts s s' := s' = s
  answers s q answer s' :=
    (terms x meant).answers s.1 q answer s'.1 ∧ s'.2 = s.2 ++ q.deed?.toList
  permits _ _ _ _ := True
  trans := by
    rintro s₁ s₂ s₃ rfl rfl
    rfl

end Premises

section

variable {α σ : Type} {x : String} {meant : Prop} {p : Action α} {v : Premises}
  {deeds ds : List Deed}

theorem Ensures.noting {post : Except Failure α → Premises → Prop} (does : p.Does deeds)
    (ensures : Ensures (Premises.terms x meant) post p v) :
    Ensures (Premises.noted x meant)
      (fun r s => post r s.1 ∧ ∀ value, r = .ok value → s.2 = ds ++ deeds) p (v, ds) := by
  induction p generalizing v deeds ds with
  | done value =>
    obtain rfl : deeds = [] := does
    exact ⟨ensures, fun _ _ => (List.append_nil ds).symm⟩
  | failed failure => exact ⟨ensures, nofun⟩
  | ask q next ih =>
    obtain ⟨later, rfl, rest⟩ := does
    rintro _ rfl answer ⟨v', ds'⟩ ⟨answered, rfl⟩
    refine ⟨trivial, (ih answer (rest answer) (ensures v rfl answer v' answered).2).mono ?_⟩
    rintro r s ⟨holds, list⟩
    exact ⟨holds, fun value ok => (list value ok).trans (List.append_assoc ..)⟩

theorem Ensures.quietly {post : Except Failure α → Premises → Prop} (does : p.Does [])
    (ensures : Ensures (Premises.terms x meant) post p v) :
    Ensures (Premises.noted x meant) (fun r s => post r s.1 ∧ ∀ value, r = .ok value → s.2 = ds) p
      (v, ds) := by
  refine (ensures.noting does).mono ?_
  rintro r s ⟨holds, list⟩
  exact ⟨holds, fun value ok => (list value ok).trans (List.append_nil ds)⟩

/-- A run in which nobody else writes keeps what is ensured, with its deeds on the list. -/
theorem SoleWriter.noted_of_ensures (w : SoleWriter σ) {s : σ}
    {post : Except Failure α → Premises × List Deed → Prop}
    (means : meant → ∀ (q : Request) s, q.IsMeant (w.answer q s).1)
    (ensures : Ensures (Premises.noted x meant) post p (w.view s, ds)) :
    post (p.run w.answer s).1 (w.view (p.run w.answer s).2, ds ++ p.deeds w.answer s) := by
  induction p generalizing s ds with
  | done value => exact (List.append_nil ds).symm ▸ ensures
  | failed failure => exact (List.append_nil ds).symm ▸ ensures
  | ask q next ih =>
    have answered := ensures (w.view s, ds) rfl (w.answer q s).1
      (w.view (w.answer q s).2, ds ++ q.deed?.toList)
      ⟨⟨w.handles x q s, fun holds => means holds q s⟩, rfl⟩
    have rest := ih (w.answer q s).1 answered.2
    have deeds : (Program.ask q next).deeds w.answer s =
        q.deed?.toList ++ (next (w.answer q s).1).deeds w.answer (w.answer q s).2 := by
      show List.filterMap _ (_ :: _) = _
      rw [List.filterMap_cons]
      cases q.deed? <;> rfl
    rw [deeds, ← List.append_assoc]
    exact rest

end

end SagaEngine
