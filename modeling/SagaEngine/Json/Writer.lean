import SagaEngine.Json.Value
/-!
# Writing JSON

The compact form: no blanks, members in order. A string escapes the quote and
the backslash with a backslash, the control codes below 0x20 and 0x7f by number,
and nothing else.
-/

namespace SagaEngine.Json

/-- The lower-case digit of a number below sixteen. -/
def hexDigit (n : Nat) : Char :=
  if n < 10 then Char.ofNat ('0'.toNat + n) else Char.ofNat ('a'.toNat + (n - 10))

/-- How one character stands inside a string. -/
def escape (c : Char) : List Char :=
  if c = '"' then ['\\', '"']
  else if c = '\\' then ['\\', '\\']
  else if c.toNat < 0x20 ∨ c.toNat = 0x7f then
    ['\\', 'u', '0', '0', hexDigit (c.toNat / 16), hexDigit (c.toNat % 16)]
  else [c]

def quote (s : String) : List Char := '"' :: s.toList.flatMap escape ++ ['"']

mutual

/-- The compact text of a value. -/
def chars : Json → List Char
  | .null => "null".toList
  | .bool true => "true".toList
  | .bool false => "false".toList
  | .number text => text.toList
  | .string s => quote s
  | .array items => '[' :: itemChars items
  | .object members => '\x7b' :: memberChars members

/-- The items of an array and its closing bracket. -/
def itemChars : List Json → List Char
  | [] => [']']
  | [item] => chars item ++ [']']
  | item :: rest => chars item ++ ',' :: itemChars rest

/-- The members of an object and its closing brace. -/
def memberChars : List (String × Json) → List Char
  | [] => ['\x7d']
  | [(name, value)] => quote name ++ ':' :: chars value ++ ['\x7d']
  | (name, value) :: rest => quote name ++ ':' :: chars value ++ ',' :: memberChars rest

end

/-- The compact text of a value. -/
def write (j : Json) : String := String.ofList j.chars

end SagaEngine.Json
