import SagaEngine.Proofs.CircuitHistory
import SagaEngine.Proofs.RecoveryWindow
/-!
# Whether the share of failures can open a circuit

A circuit opens on the share of failures once its window holds a minimum of calls. The minimum is
checked against the size of the window as both were written, and only if a size was written; what
was left out is filled in afterwards. `LeavesRate` is what accepted settings have to keep beyond
the check: without it the window never holds enough calls. Main statements: `rate_trigger_iff` and
`narrow_window_never_fires`.
-/

namespace SagaEngine

/-- A size that is given alone holds the built-in minimum, and a minimum that is given alone fits
the built-in size. -/
def BreakerSettings.LeavesRate (b : BreakerSettings) : Prop :=
  (0 < b.slidingWindowSize → b.minimumCalls = 0 → 5 ≤ b.slidingWindowSize) ∧
    (b.slidingWindowSize = 0 → b.minimumCalls ≤ 10)

namespace CollaboratorSettings

/-- The options of the breaker that guards a service. -/
def breakerOptions (c : CollaboratorSettings) : BreakerOptions :=
  BreakerOptions.ofSettings c.breakerOrEmpty

variable {c : CollaboratorSettings} {name : String}

theorem minimum_le_of_no_fault (passed : c.fault? name = none)
    (sized : 0 < c.breakerOrEmpty.slidingWindowSize) :
    c.breakerOrEmpty.minimumCalls ≤ c.breakerOrEmpty.slidingWindowSize := by
  simp only [fault?] at passed
  split at passed
  · cases passed
  · split at passed
    · cases passed
    · rename_i fits
      simp only [Bool.and_eq_true, decide_eq_true_iff] at fits
      omega

theorem window_pos (c : CollaboratorSettings) : 0 < c.breakerOptions.slidingWindowSize := by
  simp only [breakerOptions, BreakerOptions.ofSettings]
  split
  · assumption
  · decide

theorem minimum_le_window_iff (passed : c.fault? name = none) :
    c.breakerOptions.minimumCalls ≤ c.breakerOptions.slidingWindowSize ↔
      c.breakerOrEmpty.LeavesRate := by
  have fits := minimum_le_of_no_fault passed
  simp only [breakerOptions, BreakerOptions.ofSettings, BreakerSettings.LeavesRate]
  split <;> split <;> omega

end CollaboratorSettings

namespace Breaker

/-- The results among events, the oldest first. -/
def results : List BreakerEvent → List Bool
  | [] => []
  | .acquire _ :: log => results log
  | .report _ failed _ :: log => results log ++ [failed]

section

variable {o : BreakerOptions} {log run : List BreakerEvent}

theorem phase_acquire (closed : phase o log = .closed) (now : Int) :
    phase o (.acquire now :: log) = .closed := by
  obtain ⟨window, failures, streak, memory⟩ := exists_memory_of_closed closed
  have move := after_move o (.acquire now) log
  rw [memory] at move
  unfold phase
  generalize (after o log).admits (.acquire now) = admitted at move
  generalize (after o (.acquire now :: log)).memory = m at move ⊢
  cases move
  rfl

/-- Until a circuit opens it keeps every result. -/
theorem opens_or_keeps (closed : phase o log = .closed) (run : List BreakerEvent) :
    (∃ recent, recent <:+ run ∧ phase o (recent ++ log) = .opened) ∨
      phase o (run ++ log) = .closed ∧ history o (run ++ log) = history o log ++ results run := by
  induction run with
  | nil => exact .inr ⟨closed, by simp [results]⟩
  | cons ev run ih =>
    rcases ih with ⟨recent, within, opened⟩ | ⟨stays, kept⟩
    · exact .inl ⟨recent, within.trans (List.suffix_cons ..), opened⟩
    · cases ev with
      | acquire now =>
        exact .inr ⟨phase_acquire stays now, (history_acquire stays now).trans kept⟩
      | report call failed now =>
        have longer : history o (.report call failed now :: (run ++ log)) =
            history o log ++ results (.report call failed now :: run) := by
          rw [history_report stays, kept, results, List.append_assoc]
        cases failed with
        | false => exact .inr ⟨phase_success stays call now, longer⟩
        | true =>
          rcases phase_failure stays call now with ⟨opened, -⟩ | ⟨calm, -⟩
          · exact .inl ⟨_, List.suffix_rfl, opened⟩
          · exact .inr ⟨calm, longer⟩

/-- A full window with enough failures in it is reason to open, if it holds the minimum. -/
theorem reasonToOpen_of_full {results : List Bool} (sized : 0 < o.slidingWindowSize)
    (fits : o.minimumCalls ≤ o.slidingWindowSize) (full : o.slidingWindowSize ≤ results.length)
    (rate : rateReached ((results.rtake o.slidingWindowSize).count true) o.slidingWindowSize
      o.failureRateThreshold = true) : ReasonToOpen o results := by
  have size : max 1 o.slidingWindowSize = o.slidingWindowSize := by omega
  refine .inr ?_
  rw [size, Nat.min_eq_right full]
  exact ⟨fits, rate⟩

theorem opens_of_full (sized : 0 < o.slidingWindowSize)
    (fits : o.minimumCalls ≤ o.slidingWindowSize) (closed : phase o log = .closed)
    {call : Nat} {now : Int}
    (full : o.slidingWindowSize ≤ (history o log ++ results run ++ [true]).length)
    (rate : rateReached (((history o log ++ results run ++ [true]).rtake
      o.slidingWindowSize).count true) o.slidingWindowSize o.failureRateThreshold = true) :
    ∃ recent, recent <:+ .report call true now :: run ∧ phase o (recent ++ log) = .opened := by
  rcases opens_or_keeps closed run with ⟨recent, within, opened⟩ | ⟨stays, kept⟩
  · exact ⟨recent, within.trans (List.suffix_cons ..), opened⟩
  · rcases phase_failure stays call now with ⟨opened, -⟩ | ⟨-, calm⟩
    · exact ⟨_, List.suffix_rfl, opened⟩
    · rw [kept] at calm
      exact absurd (reasonToOpen_of_full sized fits full rate) calm

/-- A window too small for the minimum leaves only the run of failures as a reason. -/
theorem reasonToOpen_of_small (sized : 0 < o.slidingWindowSize)
    (small : o.slidingWindowSize < o.minimumCalls) (results : List Bool) :
    ReasonToOpen o results ↔
      0 < o.consecutiveFailures ∧ List.replicate o.consecutiveFailures true <:+ results := by
  constructor
  · rintro (run | ⟨enough, -⟩)
    · exact run
    · omega
  · exact .inl

end

end Breaker

open Breaker in
/-- The breaker of each service of an accepted configuration has room for its minimum of calls
exactly if the settings leave the rate beyond the check. Then results that fill the window of a
closed circuit with failures up to the threshold and end in a failure open it; otherwise no share
of failures ever does, and only a run of them opens it. -/
theorem rate_trigger_iff {s : RuntimeSettings} (accepted : s.validate = .ok ()) {name : String}
    {c : CollaboratorSettings} (named : (name, c) ∈ s.collaboratorsOrEmpty.named) :
    let o := c.breakerOptions
    (o.minimumCalls ≤ o.slidingWindowSize ↔ c.breakerOrEmpty.LeavesRate) ∧
    (c.breakerOrEmpty.LeavesRate → ∀ log run call now, phase o log = .closed →
      o.slidingWindowSize ≤ (history o log ++ results run ++ [true]).length →
      rateReached (((history o log ++ results run ++ [true]).rtake
        o.slidingWindowSize).count true) o.slidingWindowSize o.failureRateThreshold = true →
      ∃ recent, recent <:+ .report call true now :: run ∧ phase o (recent ++ log) = .opened) ∧
    (¬c.breakerOrEmpty.LeavesRate → ∀ log call now, phase o log = .closed →
      (phase o (.report call true now :: log) = .opened ↔
        0 < o.consecutiveFailures ∧
          List.replicate o.consecutiveFailures true <:+ history o log ++ [true])) := by
  intro o
  have sized : 0 < o.slidingWindowSize := c.window_pos
  have room := CollaboratorSettings.minimum_le_window_iff
    (RuntimeSettings.collaborator_of_accepted accepted named)
  refine ⟨room, ?_, ?_⟩
  · intro leaves log run call now closed full rate
    exact opens_of_full sized (room.2 leaves) closed full rate
  · intro lacks log call now closed
    have small : o.slidingWindowSize < o.minimumCalls := Nat.lt_of_not_le fun fits =>
      lacks (room.1 fits)
    rw [← reasonToOpen_of_small sized small]
    rcases phase_failure closed call now with ⟨opened, reason⟩ | ⟨stays, calm⟩
    · exact iff_of_true opened reason
    · exact iff_of_false (by rw [stays]; nofun) calm

/-- Settings of the payment service alone, with both numbers given. -/
def Sample.wide : RuntimeSettings :=
  { collaborators := some { payment := some { circuitBreaker := some {
      slidingWindowSize := 4, minimumCalls := 2, consecutiveFailures := 9 } } } }

open Breaker in
theorem rate_trigger_iff_wide :
    Sample.wide.validate = .ok () ∧
      ∃ c, ("payment", c) ∈ Sample.wide.collaboratorsOrEmpty.named ∧
        c.breakerOptions.minimumCalls ≤ c.breakerOptions.slidingWindowSize ∧
        ∃ recent, recent <:+ [.report 3 true 40, .report 2 false 30, .report 1 false 20,
          .report 0 true 10] ∧ phase c.breakerOptions recent = .opened := by
  have named : ("payment", _) ∈ Sample.wide.collaboratorsOrEmpty.named :=
    List.mem_cons_of_mem _ List.mem_cons_self
  have leaves : (Sample.wide.collaboratorsOrEmpty.payment.getD {}).breakerOrEmpty.LeavesRate :=
    ⟨fun _ => nofun, nofun⟩
  obtain ⟨room, fires, -⟩ := rate_trigger_iff (s := Sample.wide) rfl named
  obtain ⟨recent, within, opened⟩ := fires leaves [] [.report 2 false 30, .report 1 false 20,
    .report 0 true 10] 3 40 rfl (by decide) (by decide)
  rw [List.append_nil] at opened
  exact ⟨rfl, _, named, room.2 leaves, recent, within, opened⟩

/-- Settings that give the inventory service a window and nothing else. -/
def Sample.narrow : RuntimeSettings :=
  { collaborators := some { inventory := some { circuitBreaker := some {
      slidingWindowSize := 3 } } } }

open Breaker in
/-- A window of three calls is accepted, and the breaker asks for five: it stays closed when all
the calls in its window failed. -/
theorem narrow_window_never_fires :
    Sample.narrow.validate = .ok () ∧
      ∃ c, ("inventory", c) ∈ Sample.narrow.collaboratorsOrEmpty.named ∧
        ¬c.breakerOptions.minimumCalls ≤ c.breakerOptions.slidingWindowSize ∧
        c.breakerOptions.slidingWindowSize = 3 ∧
        rateReached 3 3 c.breakerOptions.failureRateThreshold = true ∧
        history c.breakerOptions [.report 2 true 30, .report 1 true 20, .report 0 true 10] =
          [true, true, true] ∧
        phase c.breakerOptions [.report 2 true 30, .report 1 true 20, .report 0 true 10] =
          .closed :=
  ⟨rfl, _, List.mem_cons_self, by decide, rfl, rfl, by decide, by decide⟩

end SagaEngine
