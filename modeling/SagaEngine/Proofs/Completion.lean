import SagaEngine.Proofs.Reports
/-!
# Terminal rows are final and reported once

Operations and sweeps run on one store, in any interleaving. Once a row of an execution is
terminal nothing more is committed under it, and a later operation on the execution reads the
row and ends. Over the whole run the completion listener gets that row once and nothing else,
and an alert is raised once if the execution failed. Main statement:
`terminal_rows_final_reported_once`.
-/

namespace SagaEngine

/-- How an operation on a finished execution ends. -/
inductive Rests (e : Engine) (x : String) (row : Execution) :
    Operation → Except Failure Operation.Result → Prop
  | advance : Rests e x row (.advance x) (.ok (.advanced .terminal))
  | drive (patient : e.patience ≠ 0) : Rests e x row (.drive x) (.ok (.driven row))
  | hasty (hasty : e.patience = 0) : Rests e x row (.drive x) (.error (.endless x))
  | resume : Rests e x row (.resume x) (.ok .resumed)
  | cancel (kind : (Failure.notCancellable x row.status).kind = .invalidState) :
      Rests e x row (.cancel x) (.error (.notCancellable x row.status))

/-- From one fleet on to a later one, the terminal row of an execution is the last word on it. An
operation on it that was begun meanwhile makes reading requests only and ends as it has to. -/
structure Fleet.Final (e : Engine) (φ φ' : Fleet) (x : String) (row : Execution) : Prop where
  record : φ'.rows.get? x = some row
  history : Served.history x φ'.trace = Served.history x φ.trace
  reads : ∀ (i : Nat) (errand : Errand) (operation : Operation), φ.errands.length ≤ i →
    φ'.errands[i]? = some errand → errand.job = .run operation → operation.target? = some x →
    ∀ served ∈ φ'.trace, served.errand = i →
      served.request.isRead = true ∧ served.installed = []
  ends : ∀ (i : Nat) (errand : Errand) (operation : Operation), φ.errands.length ≤ i →
    φ'.errands[i]? = some errand → errand.job = .run operation → operation.target? = some x →
    ∀ r, errand.result? = some r → ∃ ended, Rests e x row operation ended ∧ r = ended.map .ran

/-- What was told about an execution: nothing before it is finished; then the terminal row and,
for a failed one, an alert, unless the errand that committed the row is still about to. -/
structure Fleet.Reported (φ : Fleet) (x : String) : Prop where
  unfinished : (∀ row, φ.rows.get? x = some row → row.status.isTerminal = false) →
    Served.told x φ.trace = [] ∧ Served.alarms x φ.trace = []
  finished : ∀ row, φ.rows.get? x = some row → row.status.isTerminal = true →
    Served.told x φ.trace = [row] ∧ Served.alarms x φ.trace = row.alarms ∨
      Served.told x φ.trace = [] ∧ Served.alarms x φ.trace <+: row.alarms ∧
        ∃ served ∈ φ.trace, row ∈ served.installed ∧
          ∃ errand, φ.errands[served.errand]? = some errand ∧ errand.result? = none

/-- The alert was raised by a sweep, about an execution that is not finished. -/
def Fleet.Overdue (φ : Fleet) (i : Nat) (raised : Alert) : Prop :=
  ∃ errand options now row, φ.errands[i]? = some errand ∧ errand.job = .sweep options now ∧
    row.status.isTerminal = false ∧ raised = Sweep.overdueAlert now row

section

variable {e : Engine} {φ φ' : Fleet} {x : String} {row : Execution}

/-! ## Later operations -/

section

variable {α : Type} {opened : Numbered PendingWrites}

/-- The contract of a program that may only read, while the committed row of an execution is a
given one. -/
abbrev restContract (x : String) (row : Execution) : Contract Request Response (Noted Unit) :=
  Rule.reading.contract fun rows => rows.get? x = some row

theorem status_rests {post : Except Failure Execution → Noted Unit → Prop}
    (found : ∀ opened, post (.ok row) ⟨opened, ()⟩) :
    Ensures (restContract x row) post (Engine.getStatus x) ⟨opened, ()⟩ := by
  apply Ensures.status
  · intro rows row' opened' known found'
    cases known.symm.trans found'
    exact found opened'
  · intro rows opened' known nothing
    cases known.symm.trans nothing

theorem advance_rests (terminal : row.status.isTerminal = true) :
    Ensures (restContract x row) (fun r _ => r = .ok .terminal) (e.advance x) ⟨opened, ()⟩ := by
  refine Ensures.bind (status_rests ?_)
  intro opened'
  dsimp only
  rw [if_pos terminal]
  rfl

theorem cancel_rests (terminal : row.status.isTerminal = true) :
    Ensures (restContract x row) (fun r _ => r = .error (.notCancellable x row.status))
      (Engine.cancel x) ⟨opened, ()⟩ := by
  refine Ensures.bind (status_rests ?_)
  intro opened'
  have stopped : row.status ≠ .started ∧ row.status ≠ .inProgress := by
    constructor <;> intro status <;> rw [status] at terminal <;> cases terminal
  dsimp only
  rw [if_pos stopped]
  rfl

theorem resume_rests (terminal : row.status.isTerminal = true) :
    Ensures (restContract x row) (fun r _ => r = .ok ()) (e.resume x) ⟨opened, ()⟩ := by
  refine Ensures.bind (status_rests ?_)
  intro opened'
  dsimp only
  rw [if_pos terminal]
  exact Ensures.line rfl

theorem drive_rests (terminal : row.status.isTerminal = true) :
    Ensures (restContract x row)
      (fun r _ => r = if e.patience = 0 then .error (.endless x) else .ok row) (e.drive x)
      ⟨opened, ()⟩ := by
  rw [Engine.drive]
  cases patience : e.patience with
  | zero => rfl
  | succ moves =>
    have finished (opened : Numbered PendingWrites) :
        Ensures (restContract x row) (fun r _ => r = .ok row) (Engine.getStatus x) ⟨opened, ()⟩ :=
      status_rests fun _ => rfl
    refine Ensures.bind (Ensures.bind ((advance_rests terminal).mono ?_))
    rintro _ ⟨opened', -⟩ rfl
    exact finished opened'

/-- An operation on a finished execution reads its row and ends. -/
theorem operation_rests (terminal : row.status.isTerminal = true) {operation : Operation}
    (target : operation.target? = some x) :
    Ensures (restContract x row) (fun r _ => Rests e x row operation r) (operation.program e)
      ⟨opened, ()⟩ := by
  cases operation with
  | start => cases target
  | advance y =>
    cases target
    refine Ensures.bind ((advance_rests terminal).mono ?_)
    rintro _ s rfl
    exact .advance
  | drive y =>
    cases target
    refine Ensures.bind ((drive_rests terminal).mono ?_)
    rintro _ s rfl
    by_cases hasty : e.patience = 0
    · rw [if_pos hasty]
      exact .hasty hasty
    · rw [if_neg hasty]
      exact .drive hasty
  | resume y =>
    cases target
    refine Ensures.bind ((resume_rests terminal).mono ?_)
    rintro _ s rfl
    exact .resume
  | cancel y =>
    cases target
    refine Ensures.bind ((cancel_rests terminal).mono ?_)
    rintro _ s rfl
    exact .cancel rfl

end

/-- Operations on one execution only read while its committed row is a given one. -/
def restPolicy (e : Engine) (x : String) (row : Execution) : Policy Unit where
  about job := ∃ operation, job = .run operation ∧ operation.target? = some x
  rule _ := Rule.reading
  possible rows := rows.get? x = some row
  first := ()
  post job r _ := ∀ operation, job = .run operation →
    ∃ ended, Rests e x row operation ended ∧ r = ended.map .ran

theorem restPolicy_obeyed (terminal : row.status.isTerminal = true) :
    (restPolicy e x row).Obeyed e := by
  rintro _ ⟨operation, rfl, target⟩ opened
  refine Ensures.bind ((operation_rests terminal target).mono ?_)
  rintro r s rests
  have ends (other : Operation) (same : Job.run operation = .run other) :
      ∃ ended, Rests e x row other ended ∧ r.map Job.Result.ran = ended.map .ran := by
    cases same
    exact ⟨r, rests, rfl⟩
  cases r with
  | ok value => exact ends
  | error failure => exact ends

/-- What such an errand asked for was reading. -/
def OnlyReads (x : String) (φ : Fleet) (i : Nat) : Prop :=
  ∀ errand operation, φ.errands[i]? = some errand → errand.job = .run operation →
    operation.target? = some x → ∀ served ∈ φ.trace, served.errand = i →
      served.request.isRead = true ∧ served.installed = []

theorem OnlyReads.step {i : Nat} (reads : OnlyReads x φ i) (keeps : (restPolicy e x row).Keeps φ i)
    (reachable : φ.Reachable e) (found : φ.rows.get? x = some row) (step : φ.Step e φ') :
    OnlyReads x φ' i := by
  intro errand operation here runs target served inside own
  cases step.moved here with
  | idle still others foreign trace =>
    rw [trace] at inside
    rcases List.mem_append.1 inside with other | old
    · exact absurd own (foreign served other)
    · exact reads errand operation still runs target served old own
  | begun job new first trace =>
    rw [trace] at inside
    have := reachable.served_lt served inside
    omega
  | answered job opened q next answer s' running serves later trace =>
    subst later
    rw [trace] at inside
    rcases List.mem_cons.1 inside with rfl | old
    · exact ((keeps _ running ⟨operation, runs, target⟩).ask found serves).1
    · exact reads _ operation running runs target served old own

/-- A terminal row is the last word on its execution. -/
theorem Fleet.Leads.final (leads : φ.Leads e φ') (reachable : φ.Reachable e) (fits : e.Fits)
    (found : φ.rows.get? x = some row) (terminal : row.status.isTerminal = true) :
    φ.Final e φ' x row := by
  -- The row is the committed one in every fleet in between, which is what the policy needs.
  have later (i : Nat) (new : φ.errands.length ≤ i) :
      (restPolicy e x row).Keeps φ' i ∧ OnlyReads x φ' i := by
    induction leads with
    | refl =>
      have nobody : φ.errands[i]? = none := List.getElem?_eq_none new
      constructor
      · intro errand here
        cases nobody.symm.trans here
      · intro errand operation here
        cases nobody.symm.trans here
    | tail before step ih =>
      obtain ⟨keeps, reads⟩ := ih
      have reachable' := Relation.ReflTransGen.trans reachable before
      obtain ⟨found', -⟩ := Fleet.Leads.finished before reachable fits found terminal
      exact ⟨keeps.step (restPolicy_obeyed terminal) reachable' found' step,
        reads.step keeps reachable' found' step⟩
  obtain ⟨record, history⟩ := Fleet.Leads.finished leads reachable fits found terminal
  refine ⟨record, history, ?_, ?_⟩
  · intro i errand operation new here runs target
    exact (later i new).2 errand operation here runs target
  · intro i errand operation new here runs target r ended
    have follows := (later i new).1 errand here ⟨operation, runs, target⟩
    exact follows.ends ended operation runs

/-! ## What was told -/

/-- Every job reports what it commits. -/
def dutyPolicy : Policy Duty where
  about _ := True
  rule := Duty.rule
  possible _ := True
  first := .clear
  post _ _ duty := duty = .clear

theorem Fleet.Reachable.dutiful (reachable : φ.Reachable e) (i : Nat) : dutyPolicy.Keeps φ i := by
  induction reachable with
  | refl =>
    intro errand here
    cases here
  | tail before step ih => exact ih.step (fun job _ => job_dutiful e job) before trivial step

theorem Fleet.Reachable.reports (reachable : φ.Reachable e) (fits : e.Fits) (x : String) :
    Reports x φ.trace := by
  induction reachable with
  | refl => exact .unfinished (by simp [Served.history]) (fun _ => Duty.about?_clear x) rfl rfl
  | tail before step ih =>
    obtain ⟨j, mirrors⟩ := Fleet.Reachable.mirrored (before.tail step) fits
    cases step with
    | begin job => exact ih
    | answer i job opened q next answer s' running serves =>
      have allowed := ((Fleet.Reachable.dutiful before i _ running trivial).ask trivial serves).1
      refine Reports.served ih allowed ?_
      intro new older history
      exact mirrors.unfinished fits history

/-- Whoever owes the report committed the row and has not ended. -/
theorem Fleet.Reachable.pending (reachable : φ.Reachable e) {i : Nat}
    (owed : (Served.duty i φ.trace).row? = some row) :
    ∃ served ∈ φ.trace, row ∈ served.installed ∧
      ∃ errand, φ.errands[served.errand]? = some errand ∧ errand.result? = none := by
  obtain ⟨served, inside, rfl, installs⟩ := committed_of_owed owed
  obtain ⟨errand, here⟩ : ∃ errand, φ.errands[served.errand]? = some errand :=
    ⟨_, List.getElem?_eq_getElem (reachable.served_lt served inside)⟩
  refine ⟨served, inside, installs, errand, here, ?_⟩
  cases ended : errand.result? with
  | none => rfl
  | some r =>
    have clear : Served.duty served.errand φ.trace = .clear :=
      (Fleet.Reachable.dutiful reachable served.errand _ here trivial).ends ended
    rw [clear] at owed
    cases owed

theorem Fleet.Reported.of_terminal (last : φ.rows.get? x = some row)
    (terminal : row.status.isTerminal = true)
    (told : Served.told x φ.trace = [row] ∧ Served.alarms x φ.trace = row.alarms ∨
      Served.told x φ.trace = [] ∧ Served.alarms x φ.trace <+: row.alarms ∧
        ∃ served ∈ φ.trace, row ∈ served.installed ∧
          ∃ errand, φ.errands[served.errand]? = some errand ∧ errand.result? = none) :
    φ.Reported x := by
  constructor
  · intro unfinished
    rw [unfinished row last] at terminal
    cases terminal
  · intro row' found _
    cases last.symm.trans found
    exact told

theorem Fleet.Reachable.reported (reachable : φ.Reachable e) (fits : e.Fits) (x : String) :
    φ.Reported x := by
  obtain ⟨j, mirrors⟩ := reachable.mirrored fits
  have last : φ.rows.get? x = (Served.history x φ.trace).head? := by
    rw [mirrors.rows, mirrors.history]
    exact record_eq_head? j x
  cases reachable.reports fits x with
  | unfinished active idle untold quiet =>
    refine ⟨fun _ => ⟨untold, quiet⟩, ?_⟩
    intro row found terminal
    rw [last] at found
    rw [active row (List.mem_of_mem_head? found)] at terminal
    cases terminal
  | owed i row older history terminal duty others untold quiet =>
    rw [history] at last
    have pending := reachable.pending (congrArg Duty.row? duty)
    exact .of_terminal last terminal (.inr ⟨untold, quiet ▸ List.nil_prefix, pending⟩)
  | alarmed i row older history failed duty others untold raised =>
    rw [history] at last
    have pending := reachable.pending (congrArg Duty.row? duty)
    have all : Served.alarms x φ.trace = row.alarms := raised.trans (if_pos failed).symm
    refine .of_terminal last ?_ (.inr ⟨untold, all ▸ List.prefix_refl _, pending⟩)
    rw [failed]
    rfl
  | reported row older history terminal idle told raised =>
    rw [history] at last
    exact .of_terminal last terminal (.inl ⟨told, raised⟩)

theorem Fleet.Step.errand {i : Nat} {errand : Errand} (step : φ.Step e φ')
    (here : φ.errands[i]? = some errand) :
    ∃ errand', φ'.errands[i]? = some errand' ∧ errand'.job = errand.job := by
  have inRange := (List.getElem?_eq_some_iff.1 here).1
  cases step with
  | begin job => exact ⟨errand, (List.getElem?_append_left inRange).trans here, rfl⟩
  | answer k job opened q next answer s' running serves =>
    by_cases same : k = i
    · subst same
      cases running.symm.trans here
      exact ⟨_, List.getElem?_set_self inRange, rfl⟩
    · exact ⟨errand, (List.getElem?_set_ne same).trans here, rfl⟩

theorem Duty.Allows.alert {job : Job} {duty : Duty} {raised : Alert} {installed : List Execution}
    (allowed : duty.Allows job (.alert raised) installed) :
    raised.status = Status.failed.name ∨ ∃ options now row, job = .sweep options now ∧
      row.status.isTerminal = false ∧ raised = Sweep.overdueAlert now row := by
  cases allowed with
  | plain _ _ unreported => cases unreported
  | alerts row failed => exact .inl (congrArg Status.name failed)
  | overdue options now row sweeps active => exact .inr ⟨options, now, row, sweeps, active, rfl⟩

/-- Every other alert is that of a sweep. -/
theorem Fleet.Reachable.alerts (reachable : φ.Reachable e) :
    ∀ served ∈ φ.trace, ∀ raised, served.request = .alert raised →
      raised.status = Status.failed.name ∨ φ.Overdue served.errand raised := by
  induction reachable with
  | refl => simp
  | @tail φ φ' before step ih =>
    have persists {i : Nat} {raised : Alert} (overdue : φ.Overdue i raised) :
        φ'.Overdue i raised := by
      obtain ⟨errand, options, now, row, here, sweeps, active, same⟩ := overdue
      obtain ⟨errand', here', job⟩ := step.errand here
      exact ⟨errand', options, now, row, here', job.trans sweeps, active, same⟩
    have older (served : Served) (old : served ∈ φ.trace) (raised : Alert)
        (alerts : served.request = .alert raised) :
        raised.status = Status.failed.name ∨ φ'.Overdue served.errand raised :=
      (ih served old raised alerts).imp id persists
    cases step with
    | begin job => exact older
    | answer i job opened q next answer s' running serves =>
      have allowed := ((Fleet.Reachable.dutiful before i _ running trivial).ask trivial serves).1
      intro served inside raised alerts
      rcases List.mem_cons.1 inside with rfl | old
      · subst alerts
        rcases allowed.alert with failed | ⟨options, now, row, sweeps, active, same⟩
        · exact .inl failed
        · exact .inr (persists ⟨_, options, now, row, running, sweeps, active, same⟩)
      · exact older served old raised alerts

/-- A terminal row stays as it is, whoever read the execution before, and later operations on the
execution read that row and end. The listener is told of an execution once, with its terminal
row, and an alert is raised once if it failed; all other alerts are those of sweeps. Every
errand that goes on comes to its end. -/
theorem terminal_rows_final_reported_once (fits : e.Fits) (reachable : φ.Reachable e) :
    (∀ φ' x row, φ.Leads e φ' → φ.rows.get? x = some row → row.status.isTerminal = true →
      φ.Final e φ' x row) ∧
    (∀ x, φ.Reported x) ∧
    (∀ served ∈ φ.trace, ∀ raised, served.request = .alert raised →
      raised.status = Status.failed.name ∨ φ.Overdue served.errand raised) ∧
    ∀ given i, ∃ n, ∀ errand, (φ.answers given i n).errands[i]? = some errand →
      errand.result? ≠ none := by
  refine ⟨?_, fun x => reachable.reported fits x, Fleet.Reachable.alerts reachable, ?_⟩
  · intro φ' x row leads found terminal
    exact Fleet.Leads.final leads reachable fits found terminal
  · intro given i
    exact φ.exists_answers given i

end

/-! ## A cancel that comes too late -/

namespace Sample

/-- Steps that are turned down, and so is their undo. -/
def stuck (_ : Journal) (_ : StepCall) : StepReply := .returned (.terminal "stuck")

/-- The host of a fleet with such steps, in which whoever resumes an execution drives it. -/
def given (q : Request) : Response q :=
  match q with
  | .dispatch _ => false
  | .wasAlerted _ => false
  | q => host stuck [] q

/-- A cancel has read the accepted row. A sweep then drives the execution to its failure. -/
def failed : Fleet :=
  let φ := ((({} : Fleet).begin engine (.run (.start "order" Dictionary.empty))).answers given 0 9)
  let φ := (φ.begin engine (.run (.cancel "x"))).answers given 1 4
  (φ.begin engine (.sweep {} 1000000)).answers given 2 80

/-- The cancel goes on, and so does a later one. -/
def refused : Fleet :=
  let φ := failed.answers given 1 12
  (φ.begin engine (.run (.cancel "x"))).answers given 3 9

theorem failed_reachable : failed.Reachable engine :=
  (Fleet.begin_leads _ _).trans ((Fleet.answers_leads _ given 0 9).trans
    ((Fleet.begin_leads _ _).trans ((Fleet.answers_leads _ given 1 4).trans
      ((Fleet.begin_leads _ _).trans (Fleet.answers_leads _ given 2 80)))))

theorem failed_leads : failed.Leads engine refused :=
  (Fleet.answers_leads _ given 1 12).trans
    ((Fleet.begin_leads _ _).trans (Fleet.answers_leads _ given 3 9))

end Sample

/-- Both cancels are refused, the row stays as it is, and the failure was reported once. -/
theorem terminal_rows_final_reported_once_late :
    ∃ row, Sample.failed.rows.get? "x" = some row ∧ row.status = .failed ∧
      Sample.failed.Final Sample.engine Sample.refused "x" row ∧
      Served.told "x" Sample.refused.trace = [row] ∧
      Served.alarms "x" Sample.refused.trace = [row.failureAlert] ∧
      Sample.refused.errands.map Errand.result? =
        [some (.ok (.ran (.started "x"))), some (.error (.notCancellable "x" .failed)),
          some (.ok (.swept { resumed := 1 })), some (.error (.notCancellable "x" .failed))] := by
  have facts : ((Sample.failed.rows.get? "x").map (·.status) = some .failed ∧
      Served.told "x" Sample.refused.trace ≠ []) ∧
      Sample.refused.errands.map Errand.result? =
        [some (.ok (.ran (.started "x"))), some (.error (.notCancellable "x" .failed)),
          some (.ok (.swept { resumed := 1 })), some (.error (.notCancellable "x" .failed))] := by
    decide +kernel
  obtain ⟨⟨status, told⟩, results⟩ := facts
  obtain ⟨row, found, failed⟩ := Option.map_eq_some_iff.1 status
  have terminal : row.status.isTerminal = true := by
    rw [failed]
    rfl
  obtain ⟨final, -⟩ := terminal_rows_final_reported_once Sample.engine_fits Sample.failed_reachable
  obtain ⟨-, told_of, -⟩ := terminal_rows_final_reported_once Sample.engine_fits
    (Relation.ReflTransGen.trans Sample.failed_reachable Sample.failed_leads)
  have final := final _ "x" row Sample.failed_leads found terminal
  have reported : Served.told "x" Sample.refused.trace = [row] ∧
      Served.alarms "x" Sample.refused.trace = row.alarms := by
    rcases (told_of "x").finished row final.record terminal with reported | ⟨untold, -⟩
    · exact reported
    · exact absurd untold told
  refine ⟨row, found, failed, final, reported.1, ?_, results⟩
  rw [reported.2]
  exact if_pos failed

end SagaEngine
