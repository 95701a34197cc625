import SagaEngine.Json.Value
import SagaEngine.Text.Numeral
/-!
# Messages in JSON

A message is an object whose members are its fields, each under one of two
spellings. An unknown member is refused, `null` leaves a field as it was, and a
number may stand in quotes where the field is a whole number.
-/

namespace SagaEngine.Json

/-- One field of a message of type `α`: its two spellings and how a value that
is not `null` changes the message. -/
structure FieldReader (α : Type) where
  camel : String
  snake : String
  set : α → Json → Option α

/-- A field spelled in one way only. -/
def FieldReader.plain (name : String) (set : α → Json → Option α) : FieldReader α :=
  ⟨name, name, set⟩

/-- Applies one member of an object to a message. -/
def setMember (fields : List (FieldReader α)) (message : α) (entry : String × Json) : Option α :=
  match fields.find? (fun f => f.camel = entry.1 || f.snake = entry.1) with
  | none => none
  | some field =>
    match entry.2 with
    | .null => some message
    | value => field.set message value

/-- Reads an object as a message, member by member on top of `start`. -/
def readMessage? (fields : List (FieldReader α)) (start : α) : Json → Option α
  | .object members => members.foldlM (setMember fields) start
  | _ => none

def text? : Json → Option String
  | .string s => some s
  | _ => none

/-- A truth value. -/
def flag? : Json → Option Bool
  | .bool b => some b
  | _ => none

/-- A whole number between two bounds, bare or in quotes. -/
def whole? (low high : Int) (j : Json) : Option Int := do
  let text ← match j with
    | .number text => some text
    | .string text => some text
    | _ => none
  let n ← (← Numeral.ofText? text).whole?
  if low ≤ n ∧ n ≤ high then some n else none

/-- A whole number of 32 bits without a sign. -/
def word32? (j : Json) : Option Nat := (whole? 0 0xffffffff j).map Int.toNat

/-- A whole number of 64 bits with a sign. -/
def signed64? (j : Json) : Option Int := whole? (-0x8000000000000000) 0x7fffffffffffffff j

/-- A bare number, as the nearest binary fraction. -/
def float? : Json → Option Float
  | .number text => (Numeral.ofText? text).map Numeral.toFloat
  | _ => none

/-- The items of an array, each read alike. -/
def items? (item? : Json → Option α) : Json → Option (List α)
  | .array items => items.mapM item?
  | _ => none

end SagaEngine.Json
