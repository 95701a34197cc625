import SagaEngine.Order.CreateOrder
import SagaEngine.Recovery.Sweep
/-!
# Scripts

A scenario is a list of operations on an engine whose steps follow a script. A
script says how each call comes back, how long it takes and what happens while it
is under way. A fault says what goes wrong with which call of the store.
-/

namespace SagaEngine.Scenario

/-- An operation of a scenario. Those on an execution name it. A lease is kept under
the name of a slot, or under that of the execution. -/
inductive Op where
  | start (sagaType : String) (context : Context)
  | get (executionId : String)
  | list (status : Status) (limit : Nat)
  | cancel (executionId : String)
  | resume (executionId : String)
  | drive (executionId : String)
  | advance (executionId : String)
  | tick (ms : Int)
  | insert (row : Int → Execution)
  | touch (executionId : String) (edit : Execution → Execution)
  | lease (executionId owner : String) (slot : Option String)
  | unlease (executionId : String) (slot : Option String)
  | held (executionId : String)
  | sweep (now : Option Nat)
  | sweepLoop (sweeps : Nat)
  | pool
  | queueLength
  | types
  | unsetHooks
  | unreadable

namespace Op

/-- The name that stands for the execution whose step is being called. -/
def self : String := "self"

/-- An operation with another reading of the names of executions. -/
def mapIds (f : String → String) : Op → Op
  | get id => get (f id)
  | cancel id => cancel (f id)
  | resume id => resume (f id)
  | drive id => drive (f id)
  | advance id => advance (f id)
  | insert row => insert fun clock => let e := row clock; { e with id := f e.id }
  | touch id edit => touch (f id) edit
  | lease id owner slot => lease (f id) owner slot
  | unlease id slot => unlease (f id) slot
  | held id => held (f id)
  | op => op

/-- An operation that says where a lease is kept: under the name of the execution, as
it was given, unless there is a slot. -/
def withSlot : Op → Op
  | lease id owner slot => lease id owner (some (slot.getD id))
  | unlease id slot => unlease id (some (slot.getD id))
  | op => op

/-- An operation while a step of an execution is being called. -/
def forExecution (current : String) : Op → Op
  | insert row => insert row
  | op => op.mapIds fun name => if name = self then current else name

def name : Op → String
  | start .. => "start"
  | get _ => "get"
  | list .. => "list"
  | cancel _ => "cancel"
  | resume _ => "resume"
  | drive _ => "drive"
  | advance _ => "advance"
  | tick _ => "tick"
  | insert _ => "insert"
  | touch .. => "touch"
  | lease .. => "lease"
  | unlease .. => "unlease"
  | held _ => "held"
  | sweep _ => "sweep"
  | sweepLoop _ => "sweep_loop"
  | pool => "pool"
  | queueLength => "queue_len"
  | types => "types"
  | unsetHooks => "unset_hooks"
  | unreadable => "start"

end Op

/-- The answer to an operation. -/
inductive Reply where
  | nothing
  | started (executionId : String)
  | row (row : Execution)
  | rows (rows : List Execution)
  | advanced (outcome : Advanced)
  | flag (value : Bool)
  | count (n : Nat)
  | time (ms : Int)
  | types (names : List String)
  | written (answer : Except Refusal Unit)
  | swept (stats : SweepStats)
  | failed (failure : Failure)
  | unreadable

/-- What happens during an operation, in order. -/
inductive Event where
  | call (call : StepCall)
  | request (request : ServiceRequest) (timeout : Option Int)
  | sleep (ms : Int)
  | alert (alert : Alert)
  | completed (row : Execution)
  | dispatch (executionId : String)
  | enqueue (executionId : String) (accepted : Bool)
  | touched (executionId : String) (code : WriteCode) (version : Nat)
  | untouched (executionId : String)
  | side (name : String) (reply : Reply)

/-- How one call of a step comes back. -/
structure Act where
  reply : StepReply := .returned .ok
  takes : Int := 1
  side : List Op := []
  deriving Inhabited

structure ScriptedStep where
  draft : StepDraft
  execute : List Act := []
  compensate : List Act := []
  deriving Inhabited

def ScriptedStep.acts (s : ScriptedStep) : Phase → List Act
  | .execute => s.execute
  | .compensate => s.compensate

/-- How one request to a service comes back. `outcome` replaces the reading of the
code, where the caller allows it. -/
structure ServiceAct where
  code : Int := 0
  message : String := ""
  assignedId : String := ""
  raised : Option String := none
  outcome : Option Outcome := none
  takes : Int := 1
  side : List Op := []
  deriving Inhabited

/-- The entry of a script for the next call: after the last one it repeats, and an
empty script has a default. -/
def nextAct [Inhabited α] (acts : List α) (used : Nat) : α :=
  (acts[min used (acts.length - 1)]?).getD default

/-- What stands behind the steps of a saga. -/
inductive Behaviour where
  | scripted (steps : List ScriptedStep)
  | createOrder

/-- The calls of the store that may go wrong. -/
inductive StoreCall where
  | begin
  | insert
  | find
  | update
  | commit
  | list
  | stale
  deriving DecidableEq, Repr

/-- What happens instead of a call of the store: it is raised, a write is answered
without being made, or the row that is read is kept from view. -/
inductive Disturbance where
  | raised (failure : StoreFailure)
  | answered (answer : Except Refusal Unit)
  | missing

/-- A fault: the calls that it concerns, counted from one, the rows it changes
before them and what it puts in their place, if anything. -/
structure Fault where
  on : StoreCall
  nth : Int := 1
  count : Int := 1
  touches : List (String × (Execution → Execution)) := []
  instead : Option Disturbance := none

/-- Whether a call of the store is a write that is answered. -/
def StoreCall.isWrite : StoreCall → Bool
  | insert | update => true
  | _ => false

def Fault.concerns (f : Fault) (call : StoreCall) (n : Nat) : Bool :=
  f.on = call && f.nth ≤ n && (f.count = 0 || n < f.nth + f.count)

end SagaEngine.Scenario
