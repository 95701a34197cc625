import SagaEngine.Json.Message
import SagaEngine.Word
/-!
# Looking members up

Members of an object by name, with a default for what is absent or of another
form. A member that is null counts as absent. A number that goes beyond the word
it is read into is cut to that word.
-/

namespace SagaEngine.Json

/-- The member of that name, unless it is null. -/
def at? (j : Json) (name : String) : Option Json :=
  match j.member? name with
  | some .null => none
  | other => other

/-- Whether there is a member of that name. -/
def has (j : Json) (name : String) : Bool := (j.at? name).isSome

def nullAt (j : Json) (name : String) : Bool :=
  match j.member? name with
  | some .null => true
  | _ => false

/-- A text; anything else is empty. -/
def asText : Json → String
  | .string s => s
  | _ => ""

/-- A truth value; anything else is false. -/
def asBool : Json → Bool
  | .bool b => b
  | _ => false

/-- How far from zero a number may be, well beyond every word. -/
def intBound : Int := 0x1000000000000000000000000000000000000000

/-- A whole number within bounds; anything else is zero. -/
def asInt (j : Json) : Int := (whole? (-intBound) intBound j).getD 0

/-- The items of an array; anything else has none. -/
def asItems : Json → List Json
  | .array items => items
  | _ => []

/-- The members of an object; anything else has none. -/
def asMembers : Json → List (String × Json)
  | .object members => members
  | _ => []

def textAt (j : Json) (name : String) (default : String := "") : String :=
  match j.at? name with
  | some (.string s) => s
  | _ => default

def numberAt (j : Json) (name : String) (wrap : Int → α) (default : α) : α :=
  ((j.at? name).map fun v => wrap (asInt v)).getD default

/-- A member that is a word of 64 bits with a sign. -/
def intAt (j : Json) (name : String) (default : Int := 0) : Int :=
  j.numberAt name wrapSigned64 default

/-- A member that is a word of 32 bits with a sign. -/
def int32At (j : Json) (name : String) (default : Int := 0) : Int :=
  j.numberAt name wrapSigned32 default

/-- A member that is a word of 64 bits without a sign. -/
def natAt (j : Json) (name : String) (default : Nat := 0) : Nat :=
  j.numberAt name wrapWord64 default

/-- A member that is a word of 32 bits without a sign. -/
def nat32At (j : Json) (name : String) (default : Nat := 0) : Nat :=
  j.numberAt name wrapWord32 default

/-- A member that is a word of 8 bits without a sign. -/
def byteAt (j : Json) (name : String) (default : Nat := 0) : Nat :=
  j.numberAt name wrapByte default

/-- A member that is a truth value. -/
def boolAt (j : Json) (name : String) : Bool := ((j.at? name).map asBool).getD false

/-- A member that is an array. -/
def itemsAt (j : Json) (name : String) : List Json := ((j.at? name).map asItems).getD []

/-- A member that is an object; an absent one has no members. -/
def objectAt (j : Json) (name : String) : Json := (j.at? name).getD (.object [])

end SagaEngine.Json
