import SagaEngine.Remote.Breaker
/-!
# Runs of a circuit breaker

What can happen to a breaker, as a log with the latest event first, and what it remembers after
it. A result is told without the call that it is of: the numbers in the log are there to say of
which period a call is, and the breaker never reads them. `CircuitMove` is all that an event can
do, so that an invariant of every log takes one case for each kind of move.
-/

namespace SagaEngine

/-- A question whether a call may go out, or the result of one. -/
inductive BreakerEvent
  | acquire (now : Int)
  | report (call : Nat) (failed : Bool) (now : Int)
  deriving DecidableEq, Repr

def BreakerEvent.now : BreakerEvent → Int
  | acquire now | report _ _ now => now

/-- The stored state: a cool-down that has passed makes no difference to it. -/
def BreakerMemory.phase : BreakerMemory → CircuitState
  | closed .. => .closed
  | opened _ => .opened
  | halfOpen .. => .halfOpen

/-- The trial calls that a half-open circuit has counted, under way or successful. -/
def BreakerMemory.trials : BreakerMemory → Nat
  | halfOpen inFlight successes => inFlight + successes
  | _ => 0

/-- All that an event can do to the memory of a breaker, and whether it admits a call. -/
inductive CircuitMove (o : BreakerOptions) :
    BreakerMemory → BreakerEvent → Bool → BreakerMemory → Prop
  | passes (window failures streak now) :
      CircuitMove o (.closed window failures streak) (.acquire now) true
        (.closed window failures streak)
  | succeeds (window failures streak call now) :
      CircuitMove o (.closed window failures streak) (.report call false now) false
        (.closed (Breaker.slide o.slidingWindowSize window failures false).1
          (Breaker.slide o.slidingWindowSize window failures false).2 0)
  | fails (window failures streak call now)
      (calm : ¬Breaker.trips o (Breaker.slide o.slidingWindowSize window failures true).1
        (Breaker.slide o.slidingWindowSize window failures true).2 (streak + 1)) :
      CircuitMove o (.closed window failures streak) (.report call true now) false
        (.closed (Breaker.slide o.slidingWindowSize window failures true).1
          (Breaker.slide o.slidingWindowSize window failures true).2 (streak + 1))
  | trips (window failures streak call now)
      (reached : Breaker.trips o (Breaker.slide o.slidingWindowSize window failures true).1
        (Breaker.slide o.slidingWindowSize window failures true).2 (streak + 1)) :
      CircuitMove o (.closed window failures streak) (.report call true now) false (.opened now)
  | refuses (since now) (hot : now < since + o.openCooldown) :
      CircuitMove o (.opened since) (.acquire now) false (.opened since)
  | tries (since now) (cool : since + o.openCooldown ≤ now) :
      CircuitMove o (.opened since) (.acquire now) true (.halfOpen 1 0)
  | drops (since call failed now) :
      CircuitMove o (.opened since) (.report call failed now) false (.opened since)
  | declines (inFlight successes now) (full : o.halfOpenCalls ≤ inFlight + successes) :
      CircuitMove o (.halfOpen inFlight successes) (.acquire now) false
        (.halfOpen inFlight successes)
  | admits (inFlight successes now) (room : inFlight + successes < o.halfOpenCalls) :
      CircuitMove o (.halfOpen inFlight successes) (.acquire now) true
        (.halfOpen (inFlight + 1) successes)
  | reopens (inFlight successes call now) :
      CircuitMove o (.halfOpen inFlight successes) (.report call true now) false (.opened now)
  | closes (inFlight successes call now) (last : o.halfOpenCalls ≤ successes + 1) :
      CircuitMove o (.halfOpen inFlight successes) (.report call false now) false (.closed [] 0 0)
  | counts (inFlight successes call now) (more : successes + 1 < o.halfOpenCalls) :
      CircuitMove o (.halfOpen inFlight successes) (.report call false now) false
        (.halfOpen (inFlight - 1) (successes + 1))

namespace Breaker

def perform (b : Breaker) : BreakerEvent → Breaker
  | .acquire now => (b.tryAcquire now).2
  | .report _ failed now => if failed then b.onFailure now else b.onSuccess now

def admits (b : Breaker) : BreakerEvent → Bool
  | .acquire now => (b.tryAcquire now).1
  | .report .. => false

theorem tryTrial_options (b : Breaker) (inFlight successes : Nat) :
    (b.tryTrial inFlight successes).2.options = b.options := by
  unfold tryTrial
  split
  · rfl
  · rfl

theorem tryAcquire_options (b : Breaker) (now : Int) :
    (b.tryAcquire now).2.options = b.options := by
  unfold tryAcquire
  split
  · rfl
  · split
    · exact b.tryTrial_options 0 0
    · rfl
  · exact b.tryTrial_options _ _

theorem record_options (b : Breaker) (failed : Bool) (now : Int) :
    (b.record failed now).options = b.options := by
  unfold record
  split
  · split
    · rfl
    · split
      · rfl
      · rfl
  · rfl
  · exact (apply_ite Breaker.options ..).trans (ite_self _)

theorem perform_options (b : Breaker) (ev : BreakerEvent) :
    (b.perform ev).options = b.options := by
  cases ev with
  | acquire now => exact b.tryAcquire_options now
  | report call failed now =>
    cases failed with
    | true => exact b.record_options true now
    | false => exact b.record_options false now

theorem perform_move (b : Breaker) (trial : 0 < b.options.halfOpenCalls) (ev : BreakerEvent) :
    CircuitMove b.options b.memory ev (b.admits ev) (b.perform ev).memory := by
  obtain ⟨o, memory⟩ := b
  change 0 < o.halfOpenCalls at trial
  cases ev with
  | acquire now =>
    cases memory with
    | closed window failures streak => exact .passes ..
    | opened since =>
      by_cases cool : o.openCooldown ≤ now - since
      · have first : ¬o.halfOpenCalls ≤ 0 + 0 := by omega
        simp only [admits, perform, tryAcquire, tryTrial, cooledDown, cool, first, decide_true,
          if_true, if_false]
        exact .tries since now (by omega)
      · simp only [admits, perform, tryAcquire, cooledDown, cool, decide_false,
          Bool.false_eq_true, if_false]
        exact .refuses since now (by omega)
    | halfOpen inFlight successes =>
      by_cases full : o.halfOpenCalls ≤ inFlight + successes
      · simp only [admits, perform, tryAcquire, tryTrial, full, if_true]
        exact .declines inFlight successes now full
      · simp only [admits, perform, tryAcquire, tryTrial, full, if_false]
        exact .admits inFlight successes now (by omega)
  | report call failed now =>
    cases memory with
    | opened since => cases failed <;> exact .drops ..
    | halfOpen inFlight successes =>
      cases failed with
      | true => exact .reopens ..
      | false =>
        by_cases last : o.halfOpenCalls ≤ successes + 1
        · simp only [admits, perform, onSuccess, record, last, Bool.false_eq_true, if_true,
            if_false]
          exact .closes inFlight successes call now last
        · simp only [admits, perform, onSuccess, record, last, Bool.false_eq_true, if_false]
          exact .counts inFlight successes call now (by omega)
    | closed window failures streak =>
      cases failed with
      | false => exact .succeeds ..
      | true =>
        by_cases reached : trips o (slide o.slidingWindowSize window failures true).1
            (slide o.slidingWindowSize window failures true).2 (streak + 1) = true
        · simp only [admits, perform, onFailure, record, reached, Bool.and_self, if_true]
          exact .trips window failures streak call now reached
        · simp only [admits, perform, onFailure, record, reached, Bool.true_and, if_true,
            Bool.false_eq_true, if_false]
          exact .fails window failures streak call now reached

/-- The breaker after a log, the latest event first. -/
def after (o : BreakerOptions) : List BreakerEvent → Breaker
  | [] => ofOptions o
  | ev :: log => (after o log).perform ev

def phase (o : BreakerOptions) (log : List BreakerEvent) : CircuitState :=
  (after o log).memory.phase

/-- How many calls were admitted. A call is known by how many were admitted before it. -/
def calls (o : BreakerOptions) : List BreakerEvent → Nat
  | [] => 0
  | ev :: log => calls o log + ((after o log).admits ev).toNat

/-- How many calls had been admitted when the circuit last came into a state. -/
def callsBefore (o : BreakerOptions) (state : CircuitState) : List BreakerEvent → Nat
  | [] => 0
  | ev :: log =>
    if phase o log ≠ state ∧ phase o (ev :: log) = state then calls o log
    else callsBefore o state log

section

variable {o : BreakerOptions} {ev : BreakerEvent} {log : List BreakerEvent}

theorem after_options (o : BreakerOptions) (log : List BreakerEvent) :
    (after o log).options = (ofOptions o).options := by
  induction log with
  | nil => rfl
  | cons ev log ih => exact (perform_options _ ev).trans ih

theorem after_move (o : BreakerOptions) (ev : BreakerEvent) (log : List BreakerEvent) :
    CircuitMove (ofOptions o).options (after o log).memory ev ((after o log).admits ev)
      (after o (ev :: log)).memory := by
  rw [← after_options o log]
  refine perform_move _ ?_ ev
  rw [after_options]
  show 0 < max 1 o.halfOpenCalls
  omega

theorem callsBefore_of_ne {state : CircuitState} (other : phase o (ev :: log) ≠ state) :
    callsBefore o state (ev :: log) = callsBefore o state log := by
  rw [callsBefore, if_neg (fun entered => other entered.2)]

theorem callsBefore_of_stays {state : CircuitState} (same : phase o log = state) :
    callsBefore o state (ev :: log) = callsBefore o state log := by
  rw [callsBefore, if_neg (fun entered => entered.1 same)]

theorem callsBefore_of_enters {state : CircuitState} (before : phase o log ≠ state)
    (entered : phase o (ev :: log) = state) : callsBefore o state (ev :: log) = calls o log := by
  rw [callsBefore, if_pos ⟨before, entered⟩]

end

end Breaker

namespace CircuitMove

variable {o : BreakerOptions} {m m' : BreakerMemory} {ev : BreakerEvent} {admitted : Bool}

theorem not_admitted (move : CircuitMove o m ev admitted m') (shut : m'.phase = .opened) :
    admitted = false := by
  cases move <;> first | rfl | cases shut

/-- A circuit becomes half-open by a trial call that an open one admits. -/
theorem enters_halfOpen (move : CircuitMove o m ev admitted m') (other : m.phase ≠ .halfOpen)
    (entered : m'.phase = .halfOpen) :
    m.phase = .opened ∧ admitted = true ∧ m' = .halfOpen 1 0 := by
  cases move <;> first | exact ⟨rfl, rfl, rfl⟩ | exact absurd rfl other | cases entered

end CircuitMove

namespace Breaker

section

variable {o : BreakerOptions} {ev : BreakerEvent} {log : List BreakerEvent}

/-- No call is admitted while the circuit is open. -/
theorem callsBefore_of_opened (shut : phase o log = .opened) :
    callsBefore o .opened log = calls o log := by
  induction log with
  | nil => cases shut
  | cons ev log ih =>
    rw [calls, (after_move o ev log).not_admitted shut]
    by_cases before : phase o log = .opened
    · exact (callsBefore_of_stays before).trans (ih before)
    · exact callsBefore_of_enters before shut

/-- So a call is of the current half-open period if it was admitted since the circuit opened. -/
theorem callsBefore_of_halfOpen (trial : phase o log = .halfOpen) :
    callsBefore o .halfOpen log = callsBefore o .opened log := by
  induction log with
  | nil => cases trial
  | cons ev log ih =>
    have other : phase o (ev :: log) ≠ .opened := by
      rw [trial]
      decide
    rw [callsBefore_of_ne other]
    by_cases before : phase o log = .halfOpen
    · exact (callsBefore_of_stays before).trans (ih before)
    -- A period begins in an open circuit, which has admitted no call since it opened.
    · have shut := ((after_move o ev log).enters_halfOpen before trial).1
      rw [callsBefore_of_enters before trial, callsBefore_of_opened shut]

end

end Breaker

/-- A breaker that opens on a single failure and closes after two trials. -/
def Sample.touchy : BreakerOptions := { consecutiveFailures := 1, halfOpenCalls := 2 }

end SagaEngine
