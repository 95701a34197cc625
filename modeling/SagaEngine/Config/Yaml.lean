import SagaEngine.Dictionary
import SagaEngine.Json.Value
import SagaEngine.Text.LooseNumeral
import SagaEngine.Text.ZeroEnded
/-!
# Configuration documents

The tree of a configuration document and its meaning as JSON. A quoted scalar is
text. A plain scalar is a truth value if it is spelled so, a number if all of it
reads as a numeral, and text otherwise. Maps are ordered by key.
-/

namespace SagaEngine

inductive YamlNode where
  | undefined
  | null
  | quoted (text : String)
  | plain (text : String)
  | sequence (items : List YamlNode)
  | mapping (entries : List (String × YamlNode))
  deriving Inhabited

namespace YamlNode

/-- A number; one that is not finite becomes a numeral that no field accepts. -/
def numberToJson (x : Float) : Json := .number ((BinaryFraction.exactText? x).getD "nan")

/-- The meaning of a plain scalar. Only what precedes a zero code is looked at for
a numeral. -/
def plainToJson (text : String) : Json :=
  if text = "true" then .bool true
  else if text = "false" then .bool false
  else
    let cs := text.toList
    let visible := charsUntilZero cs
    if cs.isEmpty then .string text
    else if visible.isEmpty then numberToJson 0.0
    else
      match LooseNumeral.ofChars? visible with
      | some x => numberToJson x
      | none => .string text

mutual

/-- The meaning of a node. -/
def toJson : YamlNode → Json
  | .undefined => .null
  | .null => .null
  | .quoted text => .string text
  | .plain text => plainToJson text
  | .sequence items => .array (itemsToJson items)
  | .mapping entries => .object (Dictionary.ofList (entriesToJson entries)).entries

/-- The meaning of the items of a sequence. -/
def itemsToJson : List YamlNode → List Json
  | [] => []
  | item :: rest => toJson item :: itemsToJson rest

/-- The meaning of the entries of a map. -/
def entriesToJson : List (String × YamlNode) → List (String × Json)
  | [] => []
  | (key, value) :: rest => (key, toJson value) :: entriesToJson rest

end

mutual

/-- The document of a JSON value, which is one in flow style: text is quoted, and
numbers and truth values are plain. -/
def ofJson : Json → YamlNode
  | .null => .null
  | .bool b => .plain (if b then "true" else "false")
  | .number text => .plain text
  | .string text => .quoted text
  | .array items => .sequence (itemsOfJson items)
  | .object members => .mapping (entriesOfJson members)

/-- The items of a sequence in flow style. -/
def itemsOfJson : List Json → List YamlNode
  | [] => []
  | item :: rest => ofJson item :: itemsOfJson rest

/-- The entries of a map in flow style. -/
def entriesOfJson : List (String × Json) → List (String × YamlNode)
  | [] => []
  | (key, value) :: rest => (key, ofJson value) :: entriesOfJson rest

end

end YamlNode

end SagaEngine
