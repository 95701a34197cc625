import SagaEngine.Proofs.CircuitHistory
import Mathlib.Data.List.Perm.Subperm
/-!
# Which calls decide about a circuit

A result does not say in which period its call was admitted. A late one, of a call that was
admitted before the circuit last opened, is dropped only while the circuit is open; once it is
half-open or closed again it counts like any other. `DecidedByTrials` is what an event should do
to the circuit, `DecidedLate` the three ways in which a late result decides instead. Main
statements: `decided_by_trials_iff` and `late_success_closes`.
-/

namespace SagaEngine

namespace CircuitMove

variable {o : BreakerOptions} {m m' : BreakerMemory} {ev : BreakerEvent} {admitted : Bool}

/-- Any failure opens a half-open circuit, and nothing else does. -/
theorem opens_iff (move : CircuitMove o m ev admitted m') (trial : m.phase = .halfOpen) :
    m'.phase = .opened ↔ ∃ call now, ev = .report call true now := by
  cases move with
  | declines | admits | closes | counts => constructor <;> nofun
  | reopens inFlight successes call now => exact ⟨fun _ => ⟨call, now, rfl⟩, fun _ => rfl⟩
  | _ => cases trial

/-- A half-open circuit closes by the success that it still wants. -/
theorem closes_by (move : CircuitMove o m ev admitted m') (trial : m.phase = .halfOpen)
    (closed : m'.phase = .closed) :
    ∃ inFlight successes call now, m = .halfOpen inFlight successes ∧
      ev = .report call false now ∧ o.halfOpenCalls ≤ successes + 1 := by
  cases move with
  | closes inFlight successes call now last => exact ⟨_, _, call, now, rfl, rfl, last⟩
  | passes | succeeds | fails => cases trial
  | _ => cases closed

end CircuitMove

namespace Breaker

/-- The calls whose results were told, the latest first. -/
def reported : List BreakerEvent → List Nat
  | [] => []
  | .acquire _ :: log => reported log
  | .report call _ _ :: log => call :: reported log

/-- Every result is of a call that was admitted before, and no call has two results. -/
def Disciplined (o : BreakerOptions) : List BreakerEvent → Prop
  | [] => True
  | .acquire _ :: log => Disciplined o log
  | .report call _ _ :: log => call < calls o log ∧ call ∉ reported log ∧ Disciplined o log

/-- The calls whose results were told since the circuit became half-open. -/
def trialReports (o : BreakerOptions) : List BreakerEvent → List Nat
  | [] => []
  | ev :: log =>
    match phase o log, ev with
    | .halfOpen, .report call _ _ => call :: trialReports o log
    | .halfOpen, .acquire _ => trialReports o log
    | _, _ => []

/-- What an event does to a circuit on account of the trials of the current half-open period: it
closes only after enough of them succeeded and none failed, it opens again only on the failure of
one of them, and a late result leaves the state as it is. -/
structure DecidedByTrials (o : BreakerOptions) (log : List BreakerEvent) (ev : BreakerEvent) :
    Prop where
  closes : phase o log = .halfOpen → phase o (ev :: log) = .closed →
    ∃ trials : List Nat, trials.Nodup ∧ trials.length = max 1 o.halfOpenCalls ∧
      ∀ call ∈ trials, callsBefore o .halfOpen log ≤ call ∧ call < calls o log ∧
        (∃ now, .report call false now ∈ ev :: log) ∧ ∀ now, .report call true now ∉ ev :: log
  reopens : phase o log = .halfOpen → phase o (ev :: log) = .opened →
    ∃ call now, ev = .report call true now ∧ callsBefore o .halfOpen log ≤ call ∧
      call < calls o log
  late : ∀ call failed now, ev = .report call failed now → call < callsBefore o .opened log →
    phase o (ev :: log) = phase o log

/-- A late result decides: it opens a half-open circuit or a closed one, or it is among those by
which a half-open circuit closes. -/
inductive DecidedLate (o : BreakerOptions) (log : List BreakerEvent) : BreakerEvent → Prop
  | reopens (call : Nat) (now : Int) (trial : phase o log = .halfOpen)
      (late : call < callsBefore o .opened log) : DecidedLate o log (.report call true now)
  | opens (call : Nat) (now : Int) (closed : phase o log = .closed)
      (late : call < callsBefore o .opened log)
      (reason : ReasonToOpen o (history o log ++ [true])) :
      DecidedLate o log (.report call true now)
  | closes (ev : BreakerEvent) (call : Nat) (trial : phase o log = .halfOpen)
      (closed : phase o (ev :: log) = .closed) (told : call ∈ trialReports o (ev :: log))
      (late : call < callsBefore o .opened log) : DecidedLate o log ev

section

variable {o : BreakerOptions} {ev : BreakerEvent} {log : List BreakerEvent} {call : Nat}
  {failed : Bool} {now : Int} {inFlight successes : Nat}

theorem trialReports_report (trial : phase o log = .halfOpen) (call : Nat) (failed : Bool)
    (now : Int) : trialReports o (.report call failed now :: log) = call :: trialReports o log := by
  simp only [trialReports, trial]

theorem trialReports_acquire (trial : phase o log = .halfOpen) (now : Int) :
    trialReports o (.acquire now :: log) = trialReports o log := by
  simp only [trialReports, trial]

theorem trialReports_enters (other : phase o log ≠ .halfOpen) :
    trialReports o (ev :: log) = [] := by
  rw [trialReports]
  · exact fun _ _ _ trial _ => other trial
  · exact fun _ trial _ => other trial

theorem mem_reported (told : .report call failed now ∈ log) : call ∈ reported log := by
  induction log with
  | nil => cases told
  | cons ev log ih =>
    rcases List.mem_cons.1 told with rfl | older
    · exact List.mem_cons_self
    · cases ev with
      | acquire => exact ih older
      | report => exact List.mem_cons_of_mem _ (ih older)

theorem mem_trialReports_cons (trial : phase o log = .halfOpen)
    (older : call ∈ reported log → call ∈ trialReports o log)
    (told : call ∈ reported (ev :: log)) : call ∈ trialReports o (ev :: log) := by
  cases ev with
  | acquire now =>
    rw [trialReports_acquire trial]
    exact older told
  | report other failed now =>
    rw [trialReports_report trial]
    rcases List.mem_cons.1 told with rfl | earlier
    · exact List.mem_cons_self
    · exact List.mem_cons_of_mem _ (older earlier)

theorem trialReports_sublist (o : BreakerOptions) (log : List BreakerEvent) :
    (trialReports o log).Sublist (reported log) := by
  induction log with
  | nil => exact .slnil
  | cons ev log ih =>
    by_cases trial : phase o log = .halfOpen
    · cases ev with
      | acquire now => rw [trialReports_acquire trial]; exact ih
      | report call failed now => rw [trialReports_report trial]; exact ih.cons_cons call
    · rw [trialReports_enters trial]
      exact List.nil_sublist _

/-- A half-open circuit has counted the results of its period, all of them successes, and there
are not enough of them yet. -/
theorem successes_of_halfOpen (here : (after o log).memory = .halfOpen inFlight successes) :
    (trialReports o log).length = successes ∧ successes < max 1 o.halfOpenCalls ∧
      ∀ call ∈ trialReports o log, ∃ now, .report call false now ∈ log := by
  induction log generalizing inFlight successes with
  | nil => cases here
  | cons ev log ih =>
    have move := after_move o ev log
    rw [here] at move
    generalize before : (after o log).memory = m at move
    generalize (after o log).admits ev = admitted at move
    have known : phase o log = m.phase := congrArg BreakerMemory.phase before
    cases move with
    | tries since now =>
      rw [trialReports_enters (by rw [known]; nofun)]
      exact ⟨rfl, by omega, by simp⟩
    | declines _ _ now | admits _ _ now =>
      obtain ⟨count, more, told⟩ := ih before
      rw [trialReports_acquire known]
      refine ⟨count, more, ?_⟩
      intro call among
      obtain ⟨t, earlier⟩ := told call among
      exact ⟨t, List.mem_cons_of_mem _ earlier⟩
    | counts inFlight successes call now more =>
      obtain ⟨count, -, told⟩ := ih before
      rw [trialReports_report known]
      refine ⟨congrArg (· + 1) count, more, ?_⟩
      intro other among
      rcases List.mem_cons.1 among with rfl | among
      · exact ⟨now, List.mem_cons_self⟩
      · obtain ⟨t, earlier⟩ := told other among
        exact ⟨t, List.mem_cons_of_mem _ earlier⟩

/-- A half-open circuit closes by a success, when enough results of its period were told. -/
theorem closes_of_halfOpen (trial : phase o log = .halfOpen)
    (closed : phase o (ev :: log) = .closed) :
    (∃ call now, ev = .report call false now) ∧
      (trialReports o (ev :: log)).length = max 1 o.halfOpenCalls ∧
      ∀ call ∈ trialReports o (ev :: log), ∃ now, .report call false now ∈ ev :: log := by
  obtain ⟨inFlight, successes, call, now, before, rfl, last⟩ :=
    (after_move o ev log).closes_by trial closed
  have last : max 1 o.halfOpenCalls ≤ successes + 1 := last
  obtain ⟨count, more, told⟩ := successes_of_halfOpen before
  rw [trialReports_report trial]
  refine ⟨⟨call, now, rfl⟩, ?_, ?_⟩
  · rw [List.length_cons]
    omega
  · intro other among
    rcases List.mem_cons.1 among with rfl | among
    · exact ⟨now, List.mem_cons_self⟩
    · obtain ⟨t, earlier⟩ := told other among
      exact ⟨t, List.mem_cons_of_mem _ earlier⟩

namespace Disciplined

theorem tail (disciplined : Disciplined o (ev :: log)) : Disciplined o log := by
  cases ev with
  | acquire => exact disciplined
  | report => exact disciplined.2.2

theorem nodup (disciplined : Disciplined o log) : (reported log).Nodup := by
  induction log with
  | nil => exact List.nodup_nil
  | cons ev log ih =>
    cases ev with
    | acquire => exact ih disciplined
    | report => exact List.nodup_cons.2 ⟨disciplined.2.1, ih disciplined.2.2⟩

theorem lt_calls (disciplined : Disciplined o log) (told : call ∈ reported log) :
    call < calls o log := by
  induction log with
  | nil => cases told
  | cons ev log ih =>
    rw [calls]
    cases ev with
    | acquire =>
      have older := ih disciplined told
      omega
    | report =>
      rcases List.mem_cons.1 told with rfl | older
      · have admitted := disciplined.1
        omega
      · have older := ih disciplined.2.2 older
        omega

theorem result_unique (disciplined : Disciplined o log) {failed' : Bool} {now' : Int}
    (told : .report call failed now ∈ log) (told' : .report call failed' now' ∈ log) :
    failed = failed' := by
  induction log with
  | nil => cases told
  | cons ev log ih =>
    rcases List.mem_cons.1 told with rfl | older
    · rcases List.mem_cons.1 told' with same | older'
      · cases same
        rfl
      · exact absurd (mem_reported older') disciplined.2.1
    · rcases List.mem_cons.1 told' with rfl | older'
      · exact absurd (mem_reported older) disciplined.2.1
      · exact ih disciplined.tail older older'

/-- The result of a trial of the current period was told in this period. -/
theorem mem_trialReports (disciplined : Disciplined o log) (trial : phase o log = .halfOpen)
    (own : callsBefore o .halfOpen log ≤ call) (told : call ∈ reported log) :
    call ∈ trialReports o log := by
  induction log with
  | nil => cases told
  | cons ev log ih =>
    by_cases before : phase o log = .halfOpen
    · rw [callsBefore_of_stays before] at own
      exact mem_trialReports_cons before (ih disciplined.tail before own) told
    -- The period begins with a question, so what was told before is of calls before it.
    · rw [callsBefore_of_enters before trial] at own
      obtain ⟨-, admitted, -⟩ := (after_move o ev log).enters_halfOpen before trial
      cases ev with
      | acquire =>
        have earlier : call < calls o log := disciplined.tail.lt_calls told
        omega
      | report => cases admitted

/-- The trials of a period that closes the circuit are those whose results were told in it. -/
theorem own_of_closes (disciplined : Disciplined o (ev :: log)) (trial : phase o log = .halfOpen)
    (closed : phase o (ev :: log) = .closed) {trials : List Nat} (nodup : trials.Nodup)
    (enough : trials.length = max 1 o.halfOpenCalls)
    (own : ∀ call ∈ trials, callsBefore o .halfOpen log ≤ call)
    (told : ∀ call ∈ trials, ∃ now, .report call false now ∈ ev :: log)
    (among : call ∈ trialReports o (ev :: log)) : callsBefore o .halfOpen log ≤ call := by
  by_contra late
  -- With this call the trials would be one more than the results that were told.
  have within : ∀ other ∈ call :: trials, other ∈ trialReports o (ev :: log) := by
    intro other chosen
    rcases List.mem_cons.1 chosen with rfl | chosen
    · exact among
    · obtain ⟨now, result⟩ := told other chosen
      refine mem_trialReports_cons trial ?_ (mem_reported result)
      exact disciplined.tail.mem_trialReports trial (own other chosen)
  have distinct : (call :: trials).Nodup :=
    List.nodup_cons.2 ⟨fun chosen => late (own call chosen), nodup⟩
  have fits := (distinct.subperm within).length_le
  rw [(closes_of_halfOpen trial closed).2.1, List.length_cons, enough] at fits
  omega

end Disciplined

theorem DecidedByTrials.not_late (disciplined : Disciplined o (ev :: log))
    (decided : DecidedByTrials o log ev) : ¬DecidedLate o log ev := by
  intro late
  cases late with
  | reopens call now trial late =>
    have opened := ((after_move o _ log).opens_iff trial).2 ⟨call, now, rfl⟩
    obtain ⟨other, t, same, own, -⟩ := decided.reopens trial opened
    cases same
    rw [callsBefore_of_halfOpen trial] at own
    omega
  | opens call now closed late reason =>
    have stays := decided.late call true now rfl late
    rcases phase_failure closed call now with ⟨opened, -⟩ | ⟨-, calm⟩
    · rw [opened, closed] at stays
      cases stays
    · exact calm reason
  | closes _ call trial closed told late =>
    obtain ⟨trials, nodup, enough, every⟩ := decided.closes trial closed
    have own := disciplined.own_of_closes trial closed nodup enough
      (fun other chosen => (every other chosen).1)
      (fun other chosen => (every other chosen).2.2.1) told
    rw [callsBefore_of_halfOpen trial] at own
    omega

theorem DecidedByTrials.of_not_late (disciplined : Disciplined o (ev :: log))
    (own : ¬DecidedLate o log ev) : DecidedByTrials o log ev := by
  constructor
  · intro trial closed
    obtain ⟨⟨last, now, rfl⟩, enough, successful⟩ := closes_of_halfOpen trial closed
    refine ⟨trialReports o (.report last false now :: log),
      disciplined.nodup.sublist (trialReports_sublist ..), enough, ?_⟩
    intro call among
    have told := successful call among
    refine ⟨?_, ?_, told, ?_⟩
    · rw [callsBefore_of_halfOpen trial]
      by_contra late
      exact own (.closes _ call trial closed among (by omega))
    · exact disciplined.lt_calls ((trialReports_sublist ..).subset among)
    · intro t failure
      obtain ⟨t', success⟩ := told
      cases disciplined.result_unique failure success
  · intro trial opened
    obtain ⟨call, now, rfl⟩ := ((after_move o ev log).opens_iff trial).1 opened
    refine ⟨call, now, rfl, ?_, disciplined.1⟩
    rw [callsBefore_of_halfOpen trial]
    by_contra late
    exact own (.reopens call now trial (by omega))
  · rintro call failed now rfl late
    cases before : phase o log with
    | opened =>
      obtain ⟨since, memory⟩ := exists_memory_of_opened before
      rw [← before, phase, after, perform_report_of_opened memory, phase]
    | closed =>
      cases failed with
      | false => exact phase_success before call now
      | true =>
        rcases phase_failure before call now with ⟨-, reason⟩ | ⟨stays, -⟩
        · exact absurd (.opens call now before late reason) own
        · exact stays
    | halfOpen =>
      cases failed with
      | true => exact absurd (.reopens call now before late) own
      | false =>
        cases later : phase o (.report call false now :: log) with
        | halfOpen => rfl
        | opened =>
          obtain ⟨_, _, same⟩ := ((after_move o _ log).opens_iff before).1 later
          cases same
        | closed =>
          refine absurd (.closes _ call before later ?_ late) own
          rw [trialReports_report before]
          exact List.mem_cons_self

end

end Breaker

open Breaker in
/-- However many calls are outstanding and whenever their results are told: a half-open circuit is
decided by its own trials, and late results change nothing, except by an event at which a late
result decides. -/
theorem decided_by_trials_iff (o : BreakerOptions) {log : List BreakerEvent} {ev : BreakerEvent}
    (disciplined : Disciplined o (ev :: log)) :
    DecidedByTrials o log ev ↔ ¬DecidedLate o log ev := by
  constructor
  · intro decided
    exact decided.not_late disciplined
  · intro own
    exact .of_not_late disciplined own

open Breaker in
/-- A late result that is told while the circuit is open is no obstacle: the two trials after it
close the circuit. -/
theorem decided_by_trials_iff_dropped :
    Disciplined Sample.touchy [.report 3 false 30001, .report 2 false 30000, .acquire 30000,
      .acquire 30000, .report 1 true 5, .report 0 true 0, .acquire 0, .acquire 0] ∧
    phase Sample.touchy [.report 3 false 30001, .report 2 false 30000, .acquire 30000,
      .acquire 30000, .report 1 true 5, .report 0 true 0, .acquire 0, .acquire 0] = .closed ∧
    DecidedByTrials Sample.touchy [.report 2 false 30000, .acquire 30000, .acquire 30000,
      .report 1 true 5, .report 0 true 0, .acquire 0, .acquire 0] (.report 3 false 30001) := by
  have disciplined : Disciplined Sample.touchy [.report 3 false 30001, .report 2 false 30000,
      .acquire 30000, .acquire 30000, .report 1 true 5, .report 0 true 0, .acquire 0,
      .acquire 0] := by
    refine ⟨?_, ?_, ?_, ?_, ?_, ?_, ?_, ?_, trivial⟩ <;> decide
  refine ⟨disciplined, by decide, (decided_by_trials_iff Sample.touchy disciplined).2 ?_⟩
  intro late
  cases late with
  | closes _ call trial closed told late =>
    have own : ∀ call ∈ [3, 2], 2 ≤ call := by decide
    exact absurd (own call told) (Nat.not_le_of_lt late)

open Breaker in
/-- Of two calls that were under way one opens the circuit. The other succeeds late, after the only
trial went out, and with the trial's own success it closes a circuit that wants two trials. -/
theorem late_success_closes :
    Disciplined Sample.touchy [.report 1 false 30000, .report 2 false 30000, .acquire 30000,
      .report 0 true 0, .acquire 0, .acquire 0] ∧
    phase Sample.touchy [.report 2 false 30000, .acquire 30000, .report 0 true 0, .acquire 0,
      .acquire 0] = .halfOpen ∧
    phase Sample.touchy [.report 1 false 30000, .report 2 false 30000, .acquire 30000,
      .report 0 true 0, .acquire 0, .acquire 0] = .closed ∧
    ¬DecidedByTrials Sample.touchy [.report 2 false 30000, .acquire 30000, .report 0 true 0,
      .acquire 0, .acquire 0] (.report 1 false 30000) := by
  have disciplined : Disciplined Sample.touchy [.report 1 false 30000, .report 2 false 30000,
      .acquire 30000, .report 0 true 0, .acquire 0, .acquire 0] := by
    refine ⟨?_, ?_, ?_, ?_, ?_, ?_, trivial⟩ <;> decide
  refine ⟨disciplined, by decide, by decide, ?_⟩
  intro decided
  have late : phase Sample.touchy _ = phase Sample.touchy _ :=
    decided.late 1 false 30000 rfl (by decide)
  revert late
  decide

end SagaEngine
