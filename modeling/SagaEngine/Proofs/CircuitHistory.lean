import SagaEngine.Proofs.CircuitRun
import Mathlib.Data.List.DropRight
/-!
# A closed circuit as a function of its results

While the circuit is closed the breaker keeps a window, a count and a run of failures. All three
are read off the results since it was made or last closed: `Keeps` says how, and each result keeps
it so. Main statement: `closed_refines_history`.
-/

namespace SagaEngine

namespace CircuitMove

variable {o : BreakerOptions} {m m' : BreakerMemory} {ev : BreakerEvent} {admitted : Bool}
  {window : List Bool} {failures streak call : Nat} {now : Int}

theorem success
    (move : CircuitMove o (.closed window failures streak) (.report call false now) admitted m') :
    m'.phase = .closed := by
  cases move
  rfl

theorem failure
    (move : CircuitMove o (.closed window failures streak) (.report call true now) admitted m') :
    m'.phase = .opened ∧ Breaker.trips o (Breaker.slide o.slidingWindowSize window failures true).1
        (Breaker.slide o.slidingWindowSize window failures true).2 (streak + 1) = true ∨
      m'.phase = .closed ∧
        ¬Breaker.trips o (Breaker.slide o.slidingWindowSize window failures true).1
          (Breaker.slide o.slidingWindowSize window failures true).2 (streak + 1) = true := by
  cases move with
  | trips _ _ _ _ _ reached => exact .inl ⟨rfl, reached⟩
  | fails _ _ _ _ _ calm => exact .inr ⟨rfl, calm⟩

/-- A circuit closes by forgetting all that it counted. -/
theorem enters_closed (move : CircuitMove o m ev admitted m') (other : m.phase ≠ .closed)
    (entered : m'.phase = .closed) : m' = .closed [] 0 0 := by
  cases move with
  | closes => rfl
  | passes | succeeds | fails => exact absurd rfl other
  | _ => cases entered

end CircuitMove

namespace Breaker

/-- The results that were recorded since the circuit was made or last closed, the oldest first. -/
def history (o : BreakerOptions) : List BreakerEvent → List Bool
  | [] => []
  | ev :: log =>
    match phase o log, ev with
    | .closed, .report _ failed _ => history o log ++ [failed]
    | .closed, .acquire _ => history o log
    | _, _ => if phase o (ev :: log) = .closed then [] else history o log

/-- The results are reason to open the circuit: they end in enough failures, or enough of the
latest ones are there and the share of failures among them is large enough. -/
def ReasonToOpen (o : BreakerOptions) (results : List Bool) : Prop :=
  0 < o.consecutiveFailures ∧ List.replicate o.consecutiveFailures true <:+ results ∨
    o.minimumCalls ≤ min results.length (max 1 o.slidingWindowSize) ∧
      rateReached ((results.rtake (max 1 o.slidingWindowSize)).count true)
        (min results.length (max 1 o.slidingWindowSize)) o.failureRateThreshold = true

/-- What a closed circuit keeps of its results. -/
structure Keeps (size : Nat) (results window : List Bool) (failures streak : Nat) : Prop where
  window_eq : window = results.rtake size
  failures_eq : failures = window.count true
  le_streak_iff : ∀ n, n ≤ streak ↔ List.replicate n true <:+ results

theorem length_rtake (size : Nat) (results : List Bool) :
    (results.rtake size).length = min results.length size := by
  rw [List.rtake, List.length_drop]
  omega

/-- The latest results with one more: a full window loses its oldest one. -/
theorem rtake_concat {size : Nat} (some : 0 < size) (results : List Bool) (failed : Bool) :
    (results ++ [failed]).rtake size =
      if size < (results.rtake size).length + 1 then (results.rtake size ++ [failed]).tail
      else results.rtake size ++ [failed] := by
  rw [length_rtake]
  simp only [List.rtake, List.length_append, List.length_singleton]
  by_cases full : size ≤ results.length
  · have next : results.length + 1 - size = results.length - size + 1 := by omega
    rw [if_pos (by omega), next, ← List.drop_append_of_le_length (by omega), List.tail_drop]
  · have first : results.length + 1 - size = 0 := by omega
    have all : results.length - size = 0 := by omega
    rw [if_neg (by omega), first, all, List.drop_zero, List.drop_zero]

theorem slide_window (size : Nat) (window : List Bool) (failures : Nat) (failed : Bool) :
    (slide size window failures failed).1 =
      if size < window.length + 1 then (window ++ [failed]).tail else window ++ [failed] := by
  simp only [slide, List.length_append, List.length_singleton]
  split
  · cases window <;> rfl
  · rfl

theorem slide_failures (size : Nat) (window : List Bool) (failed : Bool) :
    (slide size window (window.count true) failed).2 =
      (slide size window (window.count true) failed).1.count true := by
  simp only [slide, List.length_append, List.length_singleton]
  split
  · cases window with
    | nil => cases failed <;> rfl
    | cons oldest rest => cases oldest <;> cases failed <;> simp
  · cases failed <;> simp

theorem replicate_succ_suffix_concat (n : Nat) (results : List Bool) :
    List.replicate (n + 1) true <:+ results ++ [true] ↔ List.replicate n true <:+ results := by
  rw [List.replicate_succ', List.suffix_concat_iff]
  simp

theorem replicate_suffix_concat_false (n : Nat) (results : List Bool) :
    List.replicate n true <:+ results ++ [false] ↔ n = 0 := by
  rw [List.suffix_concat_iff]
  cases n with
  | zero => simp
  | succ n => simp [List.replicate_succ']

namespace Keeps

variable {o : BreakerOptions} {size failures streak : Nat} {results window : List Bool}

theorem empty (size : Nat) : Keeps size [] [] 0 0 where
  window_eq := (List.rtake_nil size).symm
  failures_eq := rfl
  le_streak_iff n := by simp

theorem record (keeps : Keeps size results window failures streak) (some : 0 < size)
    (failed : Bool) :
    Keeps size (results ++ [failed]) (slide size window failures failed).1
      (slide size window failures failed).2 (if failed then streak + 1 else 0) := by
  obtain ⟨rfl, rfl, streak_iff⟩ := keeps
  constructor
  · rw [slide_window, rtake_concat some]
  · exact slide_failures ..
  · intro n
    cases failed with
    | false =>
      rw [replicate_suffix_concat_false]
      simp
    | true =>
      cases n with
      | zero => simp
      | succ n =>
        rw [replicate_succ_suffix_concat, ← streak_iff]
        simp

theorem trips_iff (keeps : Keeps (max 1 o.slidingWindowSize) results window failures streak) :
    trips (ofOptions o).options window failures streak = true ↔ ReasonToOpen o results := by
  obtain ⟨rfl, rfl, streak_iff⟩ := keeps
  rw [ReasonToOpen, ← streak_iff, ← length_rtake]
  simp only [trips, Bool.or_eq_true, Bool.and_eq_true, decide_eq_true_iff]
  exact Iff.rfl

end Keeps

section

variable {o : BreakerOptions} {ev : BreakerEvent} {log : List BreakerEvent}
  {window : List Bool} {failures streak : Nat}

theorem history_report (closed : phase o log = .closed) (call : Nat) (failed : Bool) (now : Int) :
    history o (.report call failed now :: log) = history o log ++ [failed] := by
  simp only [history, closed]

theorem history_acquire (closed : phase o log = .closed) (now : Int) :
    history o (.acquire now :: log) = history o log := by
  simp only [history, closed]

theorem history_closes (other : phase o log ≠ .closed) (entered : phase o (ev :: log) = .closed) :
    history o (ev :: log) = [] := by
  rw [history, if_pos entered]
  · exact fun _ _ _ closed _ => other closed
  · exact fun _ closed _ => other closed

theorem exists_memory_of_closed (closed : phase o log = .closed) :
    ∃ window failures streak, (after o log).memory = .closed window failures streak := by
  unfold phase at closed
  cases memory : (after o log).memory with
  | closed window failures streak => exact ⟨window, failures, streak, rfl⟩
  | _ => rw [memory] at closed; cases closed

theorem exists_memory_of_opened (shut : phase o log = .opened) :
    ∃ since, (after o log).memory = .opened since := by
  unfold phase at shut
  cases memory : (after o log).memory with
  | opened since => exact ⟨since, rfl⟩
  | _ => rw [memory] at shut; cases shut

/-- What a closed circuit keeps is what the results since it was made or last closed come to. -/
theorem keeps_of_closed (here : (after o log).memory = .closed window failures streak) :
    Keeps (max 1 o.slidingWindowSize) (history o log) window failures streak := by
  induction log generalizing window failures streak with
  | nil => cases here; exact .empty _
  | cons ev log ih =>
    have size : 0 < max 1 o.slidingWindowSize := by omega
    have move := after_move o ev log
    have now_closed : phase o (ev :: log) = .closed := congrArg BreakerMemory.phase here
    rw [here] at move
    generalize before : (after o log).memory = m at move
    generalize (after o log).admits ev = admitted at move
    have known : phase o log = m.phase := congrArg BreakerMemory.phase before
    cases move with
    | passes =>
      rw [history_acquire known]
      exact ih before
    | succeeds _ _ _ call now =>
      rw [history_report known]
      exact (ih before).record size false
    | fails _ _ _ call now =>
      rw [history_report known]
      exact (ih before).record size true
    | closes inFlight successes call now =>
      rw [history_closes (by rw [known]; nofun) now_closed]
      exact .empty _

theorem phase_success (closed : phase o log = .closed) (call : Nat) (now : Int) :
    phase o (.report call false now :: log) = .closed := by
  obtain ⟨window, failures, streak, memory⟩ := exists_memory_of_closed closed
  have move := after_move o (.report call false now) log
  rw [memory] at move
  exact move.success

/-- A failure opens a closed circuit if its results are reason to, and only then. -/
theorem phase_failure (closed : phase o log = .closed) (call : Nat) (now : Int) :
    phase o (.report call true now :: log) = .opened ∧ ReasonToOpen o (history o log ++ [true]) ∨
      phase o (.report call true now :: log) = .closed ∧
        ¬ReasonToOpen o (history o log ++ [true]) := by
  obtain ⟨window, failures, streak, memory⟩ := exists_memory_of_closed closed
  have keeps := (keeps_of_closed memory).record (show 0 < max 1 o.slidingWindowSize by omega) true
  have move := after_move o (.report call true now) log
  rw [memory] at move
  rcases move.failure with ⟨opened, reached⟩ | ⟨stays, calm⟩
  · exact .inl ⟨opened, keeps.trips_iff.1 reached⟩
  · exact .inr ⟨stays, fun reason => calm (keeps.trips_iff.2 reason)⟩

theorem perform_report_of_opened {b : Breaker} {since : Int} (shut : b.memory = .opened since)
    (call : Nat) (failed : Bool) (now : Int) : b.perform (.report call failed now) = b := by
  cases failed with
  | true => simp [perform, onFailure, record, shut]
  | false => simp [perform, onSuccess, record, shut]

end

end Breaker

open Breaker in
/-- However questions, results and clock readings follow one another: while the circuit is closed
its window and its count are those of the latest results since it was made or last closed. A
success leaves it closed, and a failure opens it exactly if those results with the failure are
reason to. Results that arrive while it is open change nothing, and whenever it closes again it
starts with no results at all. -/
theorem closed_refines_history (o : BreakerOptions) (log : List BreakerEvent) :
    (∀ window failures streak, (after o log).memory = .closed window failures streak →
      window = (history o log).rtake (max 1 o.slidingWindowSize) ∧
      window.length = min (history o log).length (max 1 o.slidingWindowSize) ∧
      failures = window.count true) ∧
    (phase o log = .closed → ∀ call now,
      phase o (.report call false now :: log) = .closed ∧
      history o (.report call false now :: log) = history o log ++ [false]) ∧
    (phase o log = .closed → ∀ call now,
      history o (.report call true now :: log) = history o log ++ [true] ∧
      (phase o (.report call true now :: log) = .opened ↔
        ReasonToOpen o (history o log ++ [true])) ∧
      (phase o (.report call true now :: log) = .closed ↔
        ¬ReasonToOpen o (history o log ++ [true]))) ∧
    (phase o log = .opened → ∀ call failed now,
      after o (.report call failed now :: log) = after o log) ∧
    ∀ ev, phase o log ≠ .closed → phase o (ev :: log) = .closed →
      (after o (ev :: log)).memory = .closed [] 0 0 ∧ history o (ev :: log) = [] := by
  refine ⟨?_, ?_, ?_, ?_, ?_⟩
  · intro window failures streak here
    obtain ⟨rfl, rfl, -⟩ := keeps_of_closed here
    exact ⟨rfl, length_rtake .., rfl⟩
  · intro closed call now
    exact ⟨phase_success closed call now, history_report closed call false now⟩
  · intro closed call now
    refine ⟨history_report closed call true now, ?_⟩
    rcases phase_failure closed call now with ⟨opened, reason⟩ | ⟨stays, calm⟩
    · simp [opened, reason]
    · simp [stays, calm]
  · intro shut call failed now
    obtain ⟨since, memory⟩ := exists_memory_of_opened shut
    exact perform_report_of_opened memory call failed now
  · intro ev other entered
    exact ⟨(after_move o ev log).enters_closed other entered, history_closes other entered⟩

/-- A breaker that opens when half of the latest two calls failed. -/
def Sample.halves : BreakerOptions :=
  { slidingWindowSize := 2, minimumCalls := 2, consecutiveFailures := 0 }

open Breaker in
/-- The window slides: the second failure opens the circuit for the two latest results alone. -/
theorem closed_refines_history_rate :
    history Sample.halves [.report 1 false 5, .report 0 true 5, .acquire 0, .acquire 0,
      .acquire 0] = [true, false] ∧
    ReasonToOpen Sample.halves ([true, false] ++ [true]) ∧
    phase Sample.halves [.report 2 true 5, .report 1 false 5, .report 0 true 5, .acquire 0,
      .acquire 0, .acquire 0] = .opened := by
  have reason : ReasonToOpen Sample.halves ([true, false] ++ [true]) :=
    .inr ⟨by decide, by decide⟩
  have failure := (closed_refines_history Sample.halves
    [.report 1 false 5, .report 0 true 5, .acquire 0, .acquire 0, .acquire 0]).2.2.1 (by decide)
  exact ⟨rfl, reason, (failure 2 5).2.1.2 reason⟩

end SagaEngine
