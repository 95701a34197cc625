import SagaEngine.Saga.FailureKind
import SagaEngine.Saga.Retry
import SagaEngine.Text.ZeroEnded
/-!
# Saga definitions

A definition is a name, an ordered list of named steps and a retry budget. It
comes only from a draft that passed every check, so its steps are never empty
and its budget allows at least one attempt. What a step does when it is called
is not part of the definition: the environment answers the call.
-/

namespace SagaEngine

/-- A step as it is handed in. -/
structure StepDraft where
  name : String
  hasExecute : Bool := true
  hasCompensate : Bool := true
  deriving Repr, Inhabited

/-- A definition as it is handed in. -/
structure SagaDraft where
  sagaType : String
  steps : List StepDraft
  retry : RetryPolicy := {}
  deriving Inhabited

/-- Why a definition is not registered. -/
inductive RegistrationError where
  | emptyType
  | noSteps (sagaType : String)
  | zeroAttempts (sagaType : String)
  | unnamedStep (sagaType : String) (position : Nat)
  | missingExecute (sagaType : String) (position : Nat) (step : String)
  | missingCompensate (sagaType : String) (position : Nat) (step : String)
  | clientsMissing (sagaType : String)
  | frozen (sagaType : String)
  | duplicate (sagaType : String)
  deriving DecidableEq, Repr

namespace RegistrationError

/-- How a step is named in an error. -/
def place (sagaType : String) (position : Nat) : String :=
  "saga " ++ sagaType ++ " step " ++ toString position

def wording : RegistrationError → String
  | emptyType => "saga type must not be empty"
  | noSteps t => "saga " ++ t ++ " has no steps"
  | zeroAttempts t => "saga " ++ t ++ " retry policy allows zero attempts"
  | unnamedStep t i => place t i ++ " has no name"
  | missingExecute t i step => place t i ++ " (" ++ step ++ ") has no execute"
  | missingCompensate t i step => place t i ++ " (" ++ step ++ ") has no compensate"
  | clientsMissing t => t ++ " requires inventory, payment and order clients"
  | frozen t => "saga registry is frozen; cannot register " ++ t
  | duplicate t => "saga type already registered: " ++ t

/-- The wording of a registration error, as it is raised. -/
def message (e : RegistrationError) : String := untilZero e.wording

def kind : RegistrationError → FailureKind
  | frozen _ => .invalidState
  | duplicate _ => .alreadyExists
  | _ => .definition

end RegistrationError

/-- A checked definition. -/
structure SagaDefinition where
  sagaType : String
  steps : List String
  retry : RetryPolicy
  steps_ne_nil : steps ≠ []
  attempts_pos : 0 < retry.maxAttempts

namespace SagaDefinition

/-- How many steps there are. -/
def stepCount (d : SagaDefinition) : Nat := d.steps.length

/-- The name of the step at an index, if the index is one of a step. -/
def stepAt? (d : SagaDefinition) (index : Int) : Option String :=
  if index < 0 then none else d.steps[index.toNat]?

/-- The first fault of a step. -/
def stepFault? (sagaType : String) (position : Nat) (step : StepDraft) :
    Option RegistrationError :=
  if step.name.isEmpty then some (.unnamedStep sagaType position)
  else if !step.hasExecute then some (.missingExecute sagaType position step.name)
  else if !step.hasCompensate then some (.missingCompensate sagaType position step.name)
  else none

/-- Checks a draft, first fault first. -/
def ofDraft (draft : SagaDraft) : Except RegistrationError SagaDefinition :=
  if draft.sagaType.isEmpty then .error .emptyType
  else if hs : draft.steps = [] then .error (.noSteps draft.sagaType)
  else if hr : draft.retry.maxAttempts = 0 then .error (.zeroAttempts draft.sagaType)
  else
    match draft.steps.zipIdx.findSome? (fun s => stepFault? draft.sagaType s.2 s.1) with
    | some fault => .error fault
    | none => .ok
        { sagaType := draft.sagaType
          steps := draft.steps.map (·.name)
          retry := draft.retry
          steps_ne_nil := by simpa using hs
          attempts_pos := Nat.pos_of_ne_zero hr }

theorem stepCount_pos (d : SagaDefinition) : 0 < d.stepCount :=
  List.length_pos_iff.2 d.steps_ne_nil

theorem stepAt?_isSome_iff (d : SagaDefinition) (index : Int) :
    (d.stepAt? index).isSome ↔ 0 ≤ index ∧ index < d.stepCount := by
  unfold stepAt? stepCount
  split
  · simp; omega
  · simp; omega

end SagaDefinition

end SagaEngine
