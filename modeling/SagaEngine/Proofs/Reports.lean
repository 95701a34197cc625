import SagaEngine.Proofs.Duty
/-!
# What observers are told

The completed rows and the failure alerts of one execution, as observers get them from all
errands of a fleet. Nobody is told of an execution before its terminal row is committed; then
one errand owes the report, and when it has paid everything was told once. Main statements:
`Reports.served` and `Fleet.Reachable.reports`.
-/

namespace SagaEngine

namespace Request

/-- The row of an execution that the listener gets by a request. -/
def told? (x : String) : Request → Option Execution
  | .completed row => if row.id = x then some row else none
  | _ => none

/-- The alert about the failure of an execution that is raised by a request. -/
def alarm? (x : String) : Request → Option Alert
  | .alert raised =>
    if raised.executionId = x ∧ raised.status = Status.failed.name then some raised else none
  | _ => none

end Request

namespace Served

/-- The rows of an execution that the completion listener got, latest first. -/
def told (x : String) (trace : List Served) : List Execution :=
  trace.filterMap fun served => served.request.told? x

/-- The alerts about the failure of an execution, latest first. -/
def alarms (x : String) (trace : List Served) : List Alert :=
  trace.filterMap fun served => served.request.alarm? x

/-- What an errand owes. -/
def duty (i : Nat) (trace : List Served) : Duty :=
  note (fun duty q _ installed => duty.after q installed) .clear i trace

end Served

/-- The row whose report is owed. -/
def Duty.row? : Duty → Option Execution
  | clear => none
  | owes row => some row
  | alarmed row => some row

def Duty.about? (duty : Duty) : Option String := duty.row?.map (·.id)

/-- The alerts that are due about a terminal row. -/
def Execution.alarms (row : Execution) : List Alert :=
  if row.status = .failed then [row.failureAlert] else []

/-- How far the report on an execution has come. -/
inductive Reports (x : String) (trace : List Served) : Prop
  | unfinished (active : ∀ row ∈ Served.history x trace, row.status.isTerminal = false)
      (idle : ∀ k, (Served.duty k trace).about? ≠ some x) (untold : Served.told x trace = [])
      (quiet : Served.alarms x trace = [])
  | owed (i : Nat) (row : Execution) (older : List Execution)
      (history : Served.history x trace = row :: older) (terminal : row.status.isTerminal = true)
      (duty : Served.duty i trace = .owes row)
      (others : ∀ k, k ≠ i → (Served.duty k trace).about? ≠ some x)
      (untold : Served.told x trace = []) (quiet : Served.alarms x trace = [])
  | alarmed (i : Nat) (row : Execution) (older : List Execution)
      (history : Served.history x trace = row :: older) (failed : row.status = .failed)
      (duty : Served.duty i trace = .alarmed row)
      (others : ∀ k, k ≠ i → (Served.duty k trace).about? ≠ some x)
      (untold : Served.told x trace = []) (raised : Served.alarms x trace = [row.failureAlert])
  | reported (row : Execution) (older : List Execution)
      (history : Served.history x trace = row :: older) (terminal : row.status.isTerminal = true)
      (idle : ∀ k, (Served.duty k trace).about? ≠ some x) (told : Served.told x trace = [row])
      (raised : Served.alarms x trace = row.alarms)

theorem Duty.about?_clear (x : String) : clear.about? ≠ some x := by
  intro impossible
  cases impossible

section

variable {x : String} {trace : List Served} {made : Served} {i : Nat} {row : Execution}
  {job : Job} {q : Request} {answer : Response q} {installed : List Execution}
  {older : List Execution} {e : Engine} {φ : Fleet}

theorem duty_own : Served.duty i (⟨i, q, answer, installed⟩ :: trace) =
    (Served.duty i trace).after q installed := if_pos rfl

theorem duty_other (other : made.errand ≠ i) :
    Served.duty i (made :: trace) = Served.duty i trace := note_other other

theorem Duty.row?_after {duty : Duty} (owed : (duty.after q installed).row? = some row) :
    row ∈ installed ∨ duty.row? = some row := by
  cases q with
  | commit tx =>
    cases installed with
    | nil =>
      have same : duty.after (.commit tx) [] = duty := duty.after_plain rfl
      exact .inr (same ▸ owed)
    | cons new rest =>
      have committed : duty.after (.commit tx) (new :: rest) = .of new := by cases duty <;> rfl
      rw [committed, Duty.of] at owed
      split at owed <;> cases owed
      exact .inl List.mem_cons_self
  | completed row' =>
    have paid : duty.after (.completed row') installed = .clear := by cases duty <;> rfl
    rw [paid] at owed
    cases owed
  | _ => cases duty <;> exact .inr owed

/-- An errand owes a report of a row only if it committed that row. -/
theorem committed_of_owed (owed : (Served.duty i trace).row? = some row) :
    ∃ made ∈ trace, made.errand = i ∧ row ∈ made.installed := by
  induction trace with
  | nil => cases owed
  | cons made trace ih =>
    have before (owed : (Served.duty i trace).row? = some row) :
        ∃ other ∈ made :: trace, other.errand = i ∧ row ∈ other.installed := by
      obtain ⟨other, inside, found⟩ := ih owed
      exact ⟨other, List.mem_cons_of_mem _ inside, found⟩
    by_cases own : made.errand = i
    · subst own
      rcases Duty.row?_after (duty_own ▸ owed) with new | old
      · exact ⟨made, List.mem_cons_self, rfl, new⟩
      · exact before old
    · rw [duty_other own] at owed
      exact before owed

theorem id_of_mem_committed (inside : row ∈ Served.history x trace) : row.id = x := by
  obtain ⟨served, _, mine⟩ := List.mem_flatMap.1 inside
  simpa using (List.mem_filter.1 (List.mem_reverse.1 mine)).2

theorem history_one (installs : made.installed = [row]) :
    Served.history x (made :: trace) =
      if row.id = x then row :: Served.history x trace else Served.history x trace := by
  rw [Served.history, List.flatMap_cons, installs]
  by_cases mine : row.id = x <;> simp [mine, Served.history]

theorem history_none (installs : made.installed = []) :
    Served.history x (made :: trace) = Served.history x trace := by
  rw [Served.history, List.flatMap_cons, installs]
  rfl

theorem told_cons : Served.told x (made :: trace) =
    (made.request.told? x).toList ++ Served.told x trace := by
  rw [Served.told, List.filterMap_cons]
  cases made.request.told? x <;> rfl

theorem alarms_cons : Served.alarms x (made :: trace) =
    (made.request.alarm? x).toList ++ Served.alarms x trace := by
  rw [Served.alarms, List.filterMap_cons]
  cases made.request.alarm? x <;> rfl

/-- What is served about other executions changes nothing. -/
theorem Reports.elsewhere (reports : Reports x trace)
    (history : Served.history x (made :: trace) = Served.history x trace)
    (untold : made.request.told? x = none) (quiet : made.request.alarm? x = none)
    (duty : Served.duty made.errand (made :: trace) = Served.duty made.errand trace ∨
      (Served.duty made.errand trace).about? ≠ some x ∧
        (Served.duty made.errand (made :: trace)).about? ≠ some x) :
    Reports x (made :: trace) := by
  have told : Served.told x (made :: trace) = Served.told x trace := by rw [told_cons, untold]; rfl
  have alarms : Served.alarms x (made :: trace) = Served.alarms x trace := by
    rw [alarms_cons, quiet]
    rfl
  have idle (k : Nat) (free : (Served.duty k trace).about? ≠ some x) :
      (Served.duty k (made :: trace)).about? ≠ some x := by
    by_cases own : made.errand = k
    · subst own
      rcases duty with same | ⟨-, free'⟩
      · rwa [same]
      · exact free'
    · rwa [duty_other own]
  have kept (k : Nat) (busy : (Served.duty k trace).about? = some x) :
      Served.duty k (made :: trace) = Served.duty k trace := by
    by_cases own : made.errand = k
    · subst own
      rcases duty with same | ⟨free, -⟩
      · exact same
      · exact absurd busy free
    · exact duty_other own
  have mine (row : Execution) (older : List Execution)
      (found : Served.history x trace = row :: older) : row.id = x :=
    id_of_mem_committed (found ▸ List.mem_cons_self)
  cases reports with
  | unfinished active idle₀ untold₀ quiet₀ =>
    exact .unfinished (history ▸ active) (fun k => idle k (idle₀ k)) (told.trans untold₀)
      (alarms.trans quiet₀)
  | owed i row older history₀ terminal duty₀ others untold₀ quiet₀ =>
    have same := kept i (by rw [duty₀]; exact congrArg some (mine row older history₀))
    exact .owed i row older (history.trans history₀) terminal (same.trans duty₀)
      (fun k other => idle k (others k other)) (told.trans untold₀) (alarms.trans quiet₀)
  | alarmed i row older history₀ failed duty₀ others untold₀ raised =>
    have same := kept i (by rw [duty₀]; exact congrArg some (mine row older history₀))
    exact .alarmed i row older (history.trans history₀) failed (same.trans duty₀)
      (fun k other => idle k (others k other)) (told.trans untold₀) (alarms.trans raised)
  | reported row older history₀ terminal idle₀ told₀ raised =>
    exact .reported row older (history.trans history₀) terminal (fun k => idle k (idle₀ k))
      (told.trans told₀) (alarms.trans raised)

/-- Once one errand is about an execution, the report on it stands as that errand says. -/
theorem Reports.of_owes (reports : Reports row.id trace) (duty : Served.duty i trace = .owes row) :
    ∃ older, Served.history row.id trace = row :: older ∧ row.status.isTerminal = true ∧
      (∀ k, k ≠ i → (Served.duty k trace).about? ≠ some row.id) ∧
      Served.told row.id trace = [] ∧ Served.alarms row.id trace = [] := by
  have busy : (Served.duty i trace).about? = some row.id := by rw [duty]; rfl
  cases reports with
  | unfinished _ idle => exact absurd busy (idle i)
  | reported _ _ _ _ idle => exact absurd busy (idle i)
  | owed k row' older history terminal duty' others untold quiet =>
    by_cases same : i = k
    · subst same
      cases duty.symm.trans duty'
      exact ⟨older, history, terminal, others, untold, quiet⟩
    · exact absurd busy (others i same)
  | alarmed k row' older history failed duty' others =>
    by_cases same : i = k
    · subst same
      cases duty.symm.trans duty'
    · exact absurd busy (others i same)

theorem Reports.of_alarmed (reports : Reports row.id trace)
    (duty : Served.duty i trace = .alarmed row) :
    ∃ older, Served.history row.id trace = row :: older ∧ row.status = .failed ∧
      (∀ k, k ≠ i → (Served.duty k trace).about? ≠ some row.id) ∧
      Served.told row.id trace = [] ∧ Served.alarms row.id trace = [row.failureAlert] := by
  have busy : (Served.duty i trace).about? = some row.id := by rw [duty]; rfl
  cases reports with
  | unfinished _ idle => exact absurd busy (idle i)
  | reported _ _ _ _ idle => exact absurd busy (idle i)
  | owed k row' older history terminal duty' others untold quiet =>
    by_cases same : i = k
    · subst same
      cases duty.symm.trans duty'
    · exact absurd busy (others i same)
  | alarmed k row' older history failed duty' others untold raised =>
    by_cases same : i = k
    · subst same
      cases duty.symm.trans duty'
      exact ⟨older, history, failed, others, untold, raised⟩
    · exact absurd busy (others i same)

/-- A row is committed before anybody is told of the execution. -/
theorem Reports.of_history (reports : Reports x trace)
    (active : ∀ row ∈ Served.history x trace, row.status.isTerminal = false) :
    (∀ k, (Served.duty k trace).about? ≠ some x) ∧ Served.told x trace = [] ∧
      Served.alarms x trace = [] := by
  have impossible (row : Execution) (older : List Execution)
      (found : Served.history x trace = row :: older) : row.status.isTerminal = false :=
    active row (found ▸ List.mem_cons_self)
  cases reports with
  | unfinished _ idle untold quiet => exact ⟨idle, untold, quiet⟩
  | owed _ row older history terminal =>
    rw [impossible row older history] at terminal
    cases terminal
  | alarmed _ row older history failed =>
    have terminal := impossible row older history
    rw [failed] at terminal
    cases terminal
  | reported row older history terminal =>
    rw [impossible row older history] at terminal
    cases terminal

/-! ## What one request changes -/

theorem Reports.commits {tx : Nat} {answer : Response (.commit tx)} (reports : Reports x trace)
    (clear : Served.duty i trace = .clear)
    (unfinished : ∀ new older, Served.history x (⟨i, .commit tx, answer, [row]⟩ :: trace) =
      new :: older → ∀ old ∈ older, old.status.isTerminal = false) :
    Reports x (⟨i, .commit tx, answer, [row]⟩ :: trace) := by
  have history : Served.history x (⟨i, .commit tx, answer, [row]⟩ :: trace) =
      if row.id = x then row :: Served.history x trace else Served.history x trace :=
    history_one rfl
  have duty : Served.duty i (⟨i, .commit tx, answer, [row]⟩ :: trace) = .of row := by
    rw [duty_own]
    cases Served.duty i trace <;> rfl
  by_cases mine : row.id = x
  · rw [if_pos mine] at history
    -- No row before the new one is terminal, so nobody was told anything yet.
    obtain ⟨idle, untold, quiet⟩ := reports.of_history (unfinished row _ history)
    by_cases terminal : row.status.isTerminal = true
    · refine .owed i row _ history terminal ?_ ?_ untold quiet
      · rw [duty, Duty.of, if_pos terminal]
      · intro k other
        rw [duty_other (Ne.symm other)]
        exact idle k
    · refine .unfinished ?_ ?_ untold quiet
      · intro row' inside
        rw [history] at inside
        rcases List.mem_cons.1 inside with rfl | old
        · simpa using terminal
        · exact unfinished row _ history row' old
      · intro k
        by_cases own : i = k
        · subst own
          rw [duty, Duty.of, if_neg terminal]
          exact Duty.about?_clear x
        · rw [duty_other own]
          exact idle k
  · rw [if_neg mine] at history
    refine reports.elsewhere history rfl rfl (.inr ⟨?_, ?_⟩)
    · show (Served.duty i trace).about? ≠ some x
      rw [clear]
      exact Duty.about?_clear x
    · show (Served.duty i _).about? ≠ some x
      rw [duty, Duty.of]
      split
      · exact fun same => mine (Option.some.inj same)
      · exact Duty.about?_clear x

theorem Reports.alerts (reports : Reports x trace) (duty : Served.duty i trace = .owes row)
    (failed : row.status = .failed) :
    Reports x (⟨i, .alert row.failureAlert, (), []⟩ :: trace) := by
  have duty' : Served.duty i (⟨i, .alert row.failureAlert, (), []⟩ :: trace) = .alarmed row := by
    rw [duty_own, duty]
    rfl
  by_cases mine : row.id = x
  · subst mine
    obtain ⟨older, history, -, others, untold, quiet⟩ := reports.of_owes duty
    refine .alarmed i row older history failed duty' ?_ untold ?_
    · intro k other
      rw [duty_other (Ne.symm other)]
      exact others k other
    · rw [alarms_cons, quiet]
      simp [Request.alarm?, Execution.failureAlert, failed]
  · refine reports.elsewhere (history_none rfl) rfl ?_ (.inr ⟨?_, ?_⟩)
    · exact if_neg fun about => mine about.1
    · show (Served.duty i trace).about? ≠ some x
      rw [duty]
      exact fun same => mine (Option.some.inj same)
    · show (Served.duty i _).about? ≠ some x
      rw [duty']
      exact fun same => mine (Option.some.inj same)

theorem Reports.completes (reports : Reports x trace)
    (duty : Served.duty i trace = .owes row ∧ row.status ≠ .failed ∨
      Served.duty i trace = .alarmed row) :
    Reports x (⟨i, .completed row, (), []⟩ :: trace) := by
  have duty' : Served.duty i (⟨i, .completed row, (), []⟩ :: trace) = .clear := by
    rw [duty_own]
    cases Served.duty i trace <;> rfl
  by_cases mine : row.id = x
  · subst mine
    have known : ∃ older, Served.history row.id trace = row :: older ∧
        row.status.isTerminal = true ∧
        (∀ k, k ≠ i → (Served.duty k trace).about? ≠ some row.id) ∧
        Served.told row.id trace = [] ∧ Served.alarms row.id trace = row.alarms := by
      rcases duty with ⟨owes, unfailed⟩ | alarmed
      · obtain ⟨older, history, terminal, others, untold, quiet⟩ := reports.of_owes owes
        exact ⟨older, history, terminal, others, untold, quiet.trans (if_neg unfailed).symm⟩
      · obtain ⟨older, history, failed, others, untold, raised⟩ := reports.of_alarmed alarmed
        refine ⟨older, history, ?_, others, untold, raised.trans (if_pos failed).symm⟩
        rw [failed]
        rfl
    obtain ⟨older, history, terminal, others, untold, raised⟩ := known
    refine .reported row older history terminal ?_ ?_ raised
    · intro k
      by_cases own : i = k
      · subst own
        rw [duty']
        exact Duty.about?_clear row.id
      · rw [duty_other own]
        exact others k (Ne.symm own)
    · rw [told_cons, untold]
      simp [Request.told?]
  · refine reports.elsewhere (history_none rfl) (if_neg mine) rfl (.inr ⟨?_, ?_⟩)
    · show (Served.duty i trace).about? ≠ some x
      rcases duty with ⟨duty, -⟩ | duty
      · rw [duty]
        exact fun same => mine (Option.some.inj same)
      · rw [duty]
        exact fun same => mine (Option.some.inj same)
    · show (Served.duty i _).about? ≠ some x
      rw [duty']
      exact Duty.about?_clear x

theorem Reports.silent (reports : Reports x trace) (untold : q.told? x = none)
    (quiet : q.alarm? x = none)
    (unchanged : (Served.duty i trace).after q [] = Served.duty i trace) :
    Reports x (⟨i, q, answer, []⟩ :: trace) :=
  reports.elsewhere (history_none rfl) untold quiet (.inl (duty_own.trans unchanged))

theorem alarm?_overdueAlert (now : Nat) (active : row.status.isTerminal = false) :
    Request.alarm? x (.alert (Sweep.overdueAlert now row)) = none := by
  refine if_neg ?_
  rintro ⟨-, named⟩
  have failed : row.status.name = Status.failed.name := named
  cases status : row.status with
  | failed =>
    rw [status] at active
    cases active
  | _ =>
    rw [status] at failed
    exact absurd failed (by decide)

/-- A request that is allowed keeps the report as it has to be. -/
theorem Reports.served (reports : Reports x trace)
    (allowed : Duty.Allows job (Served.duty i trace) q installed)
    (unfinished : ∀ new older, Served.history x (⟨i, q, answer, installed⟩ :: trace) =
      new :: older → ∀ old ∈ older, old.status.isTerminal = false) :
    Reports x (⟨i, q, answer, installed⟩ :: trace) := by
  generalize duty : Served.duty i trace = owed at allowed
  cases allowed with
  | plain _ _ unreported =>
    refine reports.silent ?_ ?_ (Duty.after_plain _ unreported)
    · cases q <;> first | rfl | cases unreported
    · cases q <;> first | rfl | cases unreported
  | commits tx row => exact reports.commits duty unfinished
  | alerts row failed => exact reports.alerts duty failed
  | overdue options now row sweeps active =>
    refine reports.silent rfl (alarm?_overdueAlert now active) ?_
    rw [duty]
    rfl
  | completes row unfailed => exact reports.completes (.inl ⟨duty, unfailed⟩)
  | completesFailed row => exact reports.completes (.inr duty)

end

end SagaEngine
