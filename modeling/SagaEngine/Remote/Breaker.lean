import SagaEngine.Config.Settings
/-!
# Circuit breakers

CLOSED: calls pass; the circuit opens on a run of failures, or when the failure
rate over the last calls reaches the threshold. OPEN: calls are refused until
the cool-down has passed. HALF_OPEN: a bounded number of trial calls pass; all
succeeding closes the circuit, any failure opens it again. Times are
milliseconds.
-/

namespace SagaEngine

/-- The bounds of a breaker; no consecutive failures disables that trigger. -/
structure BreakerOptions where
  failureRateThreshold : Float := 50.0
  slidingWindowSize : Nat := 10
  minimumCalls : Nat := 5
  consecutiveFailures : Nat := 5
  openCooldown : Int := 30000
  halfOpenCalls : Nat := 3
  deriving Inhabited

/-- The options that settings describe; zero values keep the defaults. -/
def BreakerOptions.ofSettings (s : BreakerSettings) : BreakerOptions :=
  let d : BreakerOptions := {}
  { failureRateThreshold :=
      if 0.0 < s.failureRateThreshold then s.failureRateThreshold else d.failureRateThreshold
    slidingWindowSize :=
      if 0 < s.slidingWindowSize then s.slidingWindowSize else d.slidingWindowSize
    minimumCalls := if 0 < s.minimumCalls then s.minimumCalls else d.minimumCalls
    consecutiveFailures :=
      if 0 < s.consecutiveFailures then s.consecutiveFailures else d.consecutiveFailures
    openCooldown := Duration.resolve s.openCooldown d.openCooldown
    halfOpenCalls := if 0 < s.halfOpenCalls then s.halfOpenCalls else d.halfOpenCalls }

/-- What a caller sees of a breaker. -/
inductive CircuitState where
  | closed
  | opened
  | halfOpen
  deriving DecidableEq, Repr, Inhabited

def CircuitState.name : CircuitState → String
  | closed => "CLOSED"
  | opened => "OPEN"
  | halfOpen => "HALF_OPEN"

/-- The name shown for a number that need not be a circuit state. -/
def CircuitState.nameOfCode (n : Nat) : String :=
  ((([closed, opened, halfOpen] : List CircuitState)[n]?).map name).getD "UNKNOWN"

/-- What a breaker remembers. `closed` keeps the latest results, oldest first
(`true` for a failure), how many of them failed, and the run of failures at the
end; `halfOpen` counts the trial calls under way and the successful ones. -/
inductive BreakerMemory where
  | closed (window : List Bool) (failures : Nat) (streak : Nat)
  | opened (since : Int)
  | halfOpen (inFlight : Nat) (successes : Nat)
  deriving DecidableEq, Repr

instance : Inhabited BreakerMemory := ⟨.closed [] 0 0⟩

/-- A breaker: its bounds and what it remembers. -/
structure Breaker where
  options : BreakerOptions
  memory : BreakerMemory := .closed [] 0 0
  deriving Inhabited

namespace Breaker

/-- A breaker without history; a window and a number of trials are at least one. -/
def ofOptions (o : BreakerOptions) : Breaker where
  options := { o with
    slidingWindowSize := max 1 o.slidingWindowSize
    halfOpenCalls := max 1 o.halfOpenCalls }

/-- Whether the cool-down that began at a time has passed. -/
def cooledDown (b : Breaker) (since now : Int) : Bool := b.options.openCooldown ≤ now - since

/-- Admits a trial call if one is left. -/
def tryTrial (b : Breaker) (inFlight successes : Nat) : Bool × Breaker :=
  if b.options.halfOpenCalls ≤ inFlight + successes then
    (false, { b with memory := .halfOpen inFlight successes })
  else (true, { b with memory := .halfOpen (inFlight + 1) successes })

/-- Asks whether a call may go out. -/
def tryAcquire (b : Breaker) (now : Int) : Bool × Breaker :=
  match b.memory with
  | .closed .. => (true, b)
  | .opened since => if b.cooledDown since now then b.tryTrial 0 0 else (false, b)
  | .halfOpen inFlight successes => b.tryTrial inFlight successes

/-- Whether a share of failures reaches the threshold, in percent. -/
def rateReached (failures calls : Nat) (threshold : Float) : Bool :=
  threshold ≤ 100.0 * Float.ofNat failures / Float.ofNat calls

/-- Appends a result to a window of bounded size; the second component keeps the
number of failures in it. -/
def slide (size : Nat) (window : List Bool) (failures : Nat) (failed : Bool) :
    List Bool × Nat :=
  let window := window ++ [failed]
  let failures := if failed then failures + 1 else failures
  if size < window.length then
    match window with
    | oldest :: rest => (rest, if oldest then failures - 1 else failures)
    | [] => ([], failures)
  else (window, failures)

/-- Whether a failure that was just recorded opens the circuit. -/
def trips (o : BreakerOptions) (window : List Bool) (failures streak : Nat) : Bool :=
  (0 < o.consecutiveFailures && o.consecutiveFailures ≤ streak) ||
    (o.minimumCalls ≤ window.length && rateReached failures window.length o.failureRateThreshold)

/-- Records the result of a call. -/
def record (b : Breaker) (failed : Bool) (now : Int) : Breaker :=
  match b.memory with
  | .halfOpen inFlight successes =>
    if failed then { b with memory := .opened now }
    else if b.options.halfOpenCalls ≤ successes + 1 then { b with memory := .closed [] 0 0 }
    else { b with memory := .halfOpen (inFlight - 1) (successes + 1) }
  | .opened _ => b
  | .closed window failures streak =>
    let (window, failures) := slide b.options.slidingWindowSize window failures failed
    let streak := if failed then streak + 1 else 0
    if failed && trips b.options window failures streak then { b with memory := .opened now }
    else { b with memory := .closed window failures streak }

def onSuccess (b : Breaker) (now : Int) : Breaker := b.record false now

def onFailure (b : Breaker) (now : Int) : Breaker := b.record true now

/-- The visible state; a cool-down that has passed reads as half-open. -/
def state (b : Breaker) (now : Int) : CircuitState :=
  match b.memory with
  | .closed .. => .closed
  | .opened since => if b.cooledDown since now then .halfOpen else .opened
  | .halfOpen .. => .halfOpen

end Breaker

end SagaEngine
