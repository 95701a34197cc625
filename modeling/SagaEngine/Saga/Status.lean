/-!
# Execution status

    STARTED      -> IN_PROGRESS
    IN_PROGRESS  -> IN_PROGRESS | COMPLETED | COMPENSATING
    COMPENSATING -> COMPENSATING | COMPENSATED | FAILED

The three terminal statuses never change.
-/

namespace SagaEngine

/-- Where an execution stands. -/
inductive Status where
  | started
  | inProgress
  | compensating
  | compensated
  | completed
  | failed
  deriving DecidableEq, Repr, Inhabited

namespace Status

/-- Every status, in code order. -/
def all : List Status := [started, inProgress, compensating, compensated, completed, failed]

/-- The stored number of a status. -/
def code : Status → Nat
  | started => 0
  | inProgress => 1
  | compensating => 2
  | compensated => 3
  | completed => 4
  | failed => 5

/-- The status behind a number. -/
def ofCode? (n : Nat) : Option Status := all.find? (fun s => s.code = n)

/-- The stored name of a status. -/
def name : Status → String
  | started => "STARTED"
  | inProgress => "IN_PROGRESS"
  | compensating => "COMPENSATING"
  | compensated => "COMPENSATED"
  | completed => "COMPLETED"
  | failed => "FAILED"

/-- The status of that exact name. -/
def ofName? (text : String) : Option Status := all.find? (fun s => s.name = text)

/-- Nothing follows a terminal status. -/
def isTerminal : Status → Bool
  | completed | compensated | failed => true
  | _ => false

/-- The moves that an execution may make. -/
def canTransition : Status → Status → Bool
  | started, next => next = inProgress
  | inProgress, next => next = inProgress || next = completed || next = compensating
  | compensating, next => next = compensating || next = compensated || next = failed
  | _, _ => false

/-- The name shown for a number that need not be a status. -/
def nameOfCode (n : Nat) : String := ((ofCode? n).map name).getD "UNKNOWN"

/-- A number that is no status is not terminal. -/
def isTerminalCode (n : Nat) : Bool := ((ofCode? n).map isTerminal).getD false

/-- A number that is no status moves nowhere. -/
def canTransitionCode (source target : Nat) : Bool :=
  match ofCode? source, ofCode? target with
  | some s, some t => s.canTransition t
  | _, _ => false

@[simp] theorem ofCode?_code (s : Status) : ofCode? s.code = some s := by cases s <;> rfl

@[simp] theorem ofName?_name (s : Status) : ofName? s.name = some s := by cases s <;> rfl

theorem canTransition_of_isTerminal {s t : Status} (h : s.isTerminal) :
    s.canTransition t = false := by
  cases s <;> simp_all [isTerminal, canTransition]

end Status

end SagaEngine
