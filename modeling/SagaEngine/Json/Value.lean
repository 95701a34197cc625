/-!
# JSON values

A number keeps its text, so nothing is rounded before its use is known, and an
object keeps its members in the order written.
-/

namespace SagaEngine

inductive Json where
  | null
  | bool (value : Bool)
  | number (text : String)
  | string (value : String)
  | array (items : List Json)
  | object (members : List (String × Json))
  deriving Inhabited, Repr

namespace Json

def ofInt (n : Int) : Json := .number (toString n)

def ofNat (n : Nat) : Json := .number (toString n)

/-- The first member of that name, in an object. -/
def member? (name : String) : Json → Option Json
  | .object members => (members.find? (fun m => m.1 = name)).map (·.2)
  | _ => none

end Json

end SagaEngine
