import SagaEngine.Dictionary
import SagaEngine.Saga.Definition
/-!
# The registry of definitions

Definitions are added until the registry is frozen and never change after that.
-/

namespace SagaEngine

/-- The definitions by type. -/
structure Registry where
  definitions : Dictionary SagaDefinition := Dictionary.empty
  frozen : Bool := false

namespace Registry

instance : Inhabited Registry := ⟨{}⟩

def add (r : Registry) (d : SagaDefinition) : Except RegistrationError Registry :=
  if r.frozen then .error (.frozen d.sagaType)
  else if r.definitions.contains d.sagaType then .error (.duplicate d.sagaType)
  else .ok { r with definitions := r.definitions.insert d.sagaType d }

/-- Checks a draft and adds it. -/
def register (r : Registry) (draft : SagaDraft) : Except RegistrationError Registry := do
  r.add (← SagaDefinition.ofDraft draft)

/-- Ends registration. -/
def freeze (r : Registry) : Registry := { r with frozen := true }

def find? (r : Registry) (sagaType : String) : Option SagaDefinition :=
  r.definitions.get? sagaType

/-- The registered types in ascending order. -/
def types (r : Registry) : List String := r.definitions.keys

end Registry

end SagaEngine
