import SagaEngine.Remote.Breaker
import SagaEngine.Telemetry.Log
import SagaEngine.Text.ZeroEnded
/-!
# Calls to collaborating services

A call is a single attempt: it carries a deadline, passes the service's breaker
and has its status classified. Retrying is the engine's job.
-/

namespace SagaEngine

/-- How a call or a step ended; the last case is a number with no meaning. -/
inductive Outcome where
  | ok
  | retryable
  | terminal
  | unclassified (code : Nat)
  deriving DecidableEq, Repr, Inhabited

namespace Outcome

/-- The outcome behind a number of eight bits. -/
def ofCode (n : Int) : Outcome :=
  match (n % 256).toNat with
  | 0 => ok
  | 1 => retryable
  | 2 => terminal
  | code => unclassified code

def isOk : Outcome → Bool
  | ok => true
  | _ => false

/-- The name of an outcome; whatever is neither a success nor retryable counts
as terminal. -/
def label : Outcome → String
  | ok => "ok"
  | retryable => "retryable"
  | _ => "terminal"

end Outcome

/-! Status codes of remote calls. -/
namespace StatusCode

def ok : Int := 0
def cancelled : Int := 1
def unknown : Int := 2
def deadlineExceeded : Int := 4
def notFound : Int := 5
def alreadyExists : Int := 6
def resourceExhausted : Int := 8
def failedPrecondition : Int := 9
def aborted : Int := 10
def internal : Int := 13
def unavailable : Int := 14

/-- The codes after which a call may be repeated. -/
def retryables : List Int :=
  [deadlineExceeded, unavailable, resourceExhausted, aborted, unknown, internal, cancelled]

def classify (code : Int) : Outcome :=
  if code = ok then .ok else if code ∈ retryables then .retryable else .terminal

end StatusCode

/-- The classified answer to one call; the raw code stays visible. -/
structure CallResult where
  outcome : Outcome
  code : Int
  message : String
  deriving DecidableEq, Repr, Inhabited

namespace CallResult

def ofStatus (code : Int) (message : String) : CallResult :=
  ⟨StatusCode.classify code, code, message⟩

/-- The answer to a call that the breaker refused. -/
def circuitOpen (target : String) : CallResult :=
  ⟨.retryable, StatusCode.unavailable, "circuit open for " ++ target⟩

end CallResult

/-- How an admitted call came back. -/
inductive CallReply where
  | status (code : Int) (message : String)
  | threw (message : String)
  | threwOther
  deriving DecidableEq, Repr

/-- A caller of one service. -/
structure RemoteCaller where
  target : String
  timeout : Int := 5000
  breaker : Breaker
  deriving Inhabited

namespace RemoteCaller

/-- The caller that a service's settings describe. -/
def ofSettings (target : String) (s : CollaboratorSettings) : RemoteCaller where
  target := target
  timeout := Duration.resolve s.callTimeout 5000
  breaker := Breaker.ofOptions (BreakerOptions.ofSettings s.breakerOrEmpty)

/-- Asks the breaker; an admitted call gets the time by which it must end. -/
def admission (c : RemoteCaller) (now : Int) : Option Int × RemoteCaller :=
  let (admitted, breaker) := c.breaker.tryAcquire now
  (if admitted then some (now + c.timeout) else none, { c with breaker })

/-- The line about a call that the breaker refused. -/
def refusedLine (c : RemoteCaller) (method : String) : LogEntry :=
  .debug "call short-circuited" [.text "target" c.target, .text "method" method]

/-- Settles an admitted call: a result or a raised message (`none` for a raised
value without one), the lines to log, and the caller with its breaker updated. -/
def settle (c : RemoteCaller) (method : String) (reply : CallReply) (now : Int) :
    Except (Option String) CallResult × List LogEntry × RemoteCaller :=
  match reply with
  | .threwOther => (.error none, [], c)
  | .threw raised =>
    let message := untilZero raised
    let breaker := c.breaker.onFailure now
    let line := LogEntry.warn "collaborator call threw"
      [.text "target" c.target, .text "method" method, .text "error" message,
        .text "circuit" (breaker.state now).name]
    (.error (some message), [line], { c with breaker })
  | .status code message =>
    let result := CallResult.ofStatus code message
    if result.outcome = .retryable then
      let breaker := c.breaker.onFailure now
      let line := LogEntry.warn "collaborator call failed"
        [.text "target" c.target, .text "method" method, .int "code" result.code,
          .text "error" result.message, .text "circuit" (breaker.state now).name]
      (.ok result, [line], { c with breaker })
    else (.ok result, [], { c with breaker := c.breaker.onSuccess now })

end RemoteCaller

end SagaEngine
