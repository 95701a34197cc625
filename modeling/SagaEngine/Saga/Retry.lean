import SagaEngine.Config.Settings
/-!
# Retry budgets

Attempt `n` that failed retryably waits `min (initial · multiplier ^ (n - 1)) max`
milliseconds before the next. After `maxAttempts` failed attempts the budget is
exhausted. The delay is one formula over an arithmetic, so that it can be read
in binary fractions, as it runs, and exactly.
-/

namespace SagaEngine

/-- The operations in which a delay is computed. -/
structure DelayArithmetic (α : Type) where
  ofMillis : Int → α
  atLeastOne : α → α
  power : α → Nat → α
  times : α → α → α
  least : α → α → α
  toMillis : α → Int

namespace DelayArithmetic

/-- The delay after a number of failed attempts. -/
def delay {α : Type} (A : DelayArithmetic α) (initial : Int) (multiplier : α) (limit : Int)
    (failedAttempts : Nat) : Int :=
  if failedAttempts = 0 then 0
  else
    A.toMillis (A.least
      (A.times (A.ofMillis initial) (A.power (A.atLeastOne multiplier) (failedAttempts - 1)))
      (A.ofMillis limit))

/-- Cuts a binary fraction toward zero into a signed word of 64 bits; what does
not fit, not-a-number included, becomes the least word. -/
def truncateSigned64 (x : Float) : Int :=
  if -9223372036854775808.0 ≤ x ∧ x < 9223372036854775808.0 then x.toInt64.toInt
  else -9223372036854775808

/-- Binary fractions of 64 bits. -/
def binary : DelayArithmetic Float where
  ofMillis n := Float.ofInt n
  atLeastOne x := if x < 1.0 then 1.0 else x
  power x n := x.pow (Float.ofNat n)
  times x y := x * y
  least x y := if y < x then y else x
  toMillis := truncateSigned64

end DelayArithmetic

/-- A bounded, exponentially delayed budget of attempts; delays in milliseconds. -/
structure RetryPolicy where
  maxAttempts : Nat := 5
  initialBackoff : Int := 1000
  multiplier : Float := 2.0
  maxBackoff : Int := 30000
  deriving Inhabited

namespace RetryPolicy

/-- The wait after a number of failed attempts. -/
def backoffAfter (p : RetryPolicy) (failedAttempts : Nat) : Int :=
  DelayArithmetic.binary.delay p.initialBackoff p.multiplier p.maxBackoff failedAttempts

/-- Whether no attempt is left. -/
def exhausted (p : RetryPolicy) (failedAttempts : Nat) : Bool :=
  p.maxAttempts ≤ failedAttempts

/-- The policy that settings describe; what they leave out comes from `defaults`. -/
def ofSettings (s : RetrySettings) (defaults : RetryPolicy) : RetryPolicy where
  maxAttempts := if 0 < s.maxAttempts then s.maxAttempts else defaults.maxAttempts
  initialBackoff := Duration.resolve s.initialBackoff defaults.initialBackoff
  multiplier := if 0.0 < s.multiplier then s.multiplier else defaults.multiplier
  maxBackoff := Duration.resolve s.maxBackoff defaults.maxBackoff

end RetryPolicy

end SagaEngine
